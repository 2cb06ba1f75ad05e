import Ns3.Lib.Tally
import Ns3.Pmip6.LmaSteps

/-!
# The lifetime of a binding

An entry has a timer for its lifetime and one for the delay between its deregistration and its
deletion. Both run out into functions without a statement: `BindingCache::Remove` and
`ClearTunnelAndRouting` exist and nothing calls them.

## What is proved

`lifetime_enforced` — in every run, expired entries are released and no entry stays reachable
or deregistering beyond its time, if and only if no entry ever expires (`NoExpiry`). The
invariant is `Timely`: the timers of an entry are those of its last registration and its last
deregistration, which are kept in the `History` of the run.
`lifetime_not_enforced` is a run in which an entry outlives its lifetime.
-/

namespace Ns3.Pmip6

open BindingCache Lib

namespace Lma

/-! ### What happened to the entries -/

/-- When the entry at a place last changed hands with the gateways. -/
structure History where
  /-- When an update was accepted for it. -/
  acceptedAt : ℕ → ℤ
  deregisteredAt : ℕ → ℤ

namespace History

/-- Nothing has happened yet. -/
def start : History := ⟨fun _ => 0, fun _ => 0⟩

/-- An update of the entry at `p` is accepted. -/
def accept (p : ℕ) (now : ℤ) (g : History) : History :=
  { g with acceptedAt := fun q => if q = p then now else g.acceptedAt q }

/-- The entry at `p` is deregistered. -/
def deregister (p : ℕ) (now : ℤ) (g : History) : History :=
  { g with deregisteredAt := fun q => if q = p then now else g.deregisteredAt q }

/-- What a step adds to the history. A delayed registration is accepted when it is carried out. -/
def record (s : Timed) (e : Event) (g : History) : History :=
  match e with
  | .pbu src message =>
    match path s.now src message s.lma with
    | .update _ p | .handOff _ p => g.accept p s.now
    | .create => g.accept s.lma.bCache.length s.now
    | .deregister _ p => g.deregister p s.now
    | .rejected _ | .skip | .delay _ _ | .foreign _ _ | .unknown => g
  | .registerTimeout p => g.accept p s.now
  | .advance _ | .reachableTimeout _ | .deregisterTimeout _ => g

end History

/-! ### The property -/

variable (s : Timed)

/-- No entry is reachable after its lifetime since the last update accepted for it, and none is
deregistering after the delay since its deregistration. -/
def LifetimeEnforced (g : History) : Prop :=
  ∀ (p : ℕ) (bce : Entry), s.lma.bCache[p]? = some bce →
    (bce.state = .reachable → s.now ≤ g.acceptedAt p + bce.reachableTime) ∧
    (bce.state = .deregistering → s.now ≤ g.deregisteredAt p +
      Time.milliSeconds Ipv6MobilityL4Protocol.minDelayBeforeBceDelete)

/-- The entry that expires in a step, with its place: its lifetime ends, or the delay of its
deregistration does. The deregister timer also runs out for entries that were registered again. -/
def expiring : Event → Option (Entry × ℕ)
  | .reachableTimeout p => s.lma.bCache[p]?.map (·, p)
  | .deregisterTimeout p => (s.lma.bCache[p]?.filter (·.isDeregistering)).map (·, p)
  | .advance _ | .pbu _ _ | .registerTimeout _ => none

/-- An entry that expires leaves the cache, and its tunnel reference and its routes are released. -/
def Releases (e : Event) (s' : Timed) : Prop :=
  ∀ bce p, expiring s e = some (bce, p) →
    s'.lma.bCache = s.lma.bCache.eraseIdx p ∧ s'.lma.node = (clearTunnelAndRouting s.lma.node bce).1

/-- No entry expires. -/
def NoExpiry (e : Event) : Prop := expiring s e = none
deriving Decidable

/-- A step releases what expires in it only when nothing does. -/
theorem releases_iff {s s' : Timed} {e : Event} (h : machine.Step s e s') :
    Releases s e s' ↔ NoExpiry s e := by
  constructor
  · intro hrel
    have hc := change_of_step h
    -- the cache keeps its length, so no entry has left it
    have hkept : ∀ (lma' : Lma) (p : ℕ) (bce bce' : Entry), s.lma.bCache[p]? = some bce →
        lma' = s.lma.setEntry p bce' → lma'.bCache ≠ s.lma.bCache.eraseIdx p := by
      rintro _ p bce bce' hget rfl heq
      obtain ⟨hlt, -⟩ := List.getElem?_eq_some_iff.mp hget
      have hlen := congrArg List.length heq
      rw [setEntry, List.length_set, List.length_eraseIdx_of_lt hlt] at hlen
      omega
    cases hx : expiring s e with
    | none => exact hx
    | some x =>
      obtain ⟨bce, p⟩ := x
      have hout := (hrel bce p hx).1
      obtain ⟨now, lma⟩ := s
      obtain ⟨now', lma'⟩ := s'
      cases hc with
      | @reachableTimeout q bce' hget _ =>
        simp only [expiring, hget, Option.map_some, Option.some.injEq, Prod.mk.injEq] at hx
        obtain ⟨rfl, rfl⟩ := hx
        exact absurd hout (hkept _ _ _ _ hget rfl)
      | @deregisterTimeout q bce' hget _ =>
        simp only [expiring, hget, Option.map_eq_some_iff, Prod.mk.injEq] at hx
        obtain ⟨bce'', hfilter, rfl, rfl⟩ := hx
        exact absurd hout (hkept _ _ _ _ hget rfl)
      | advance | idle _ | update _ | delay _ | handOff _ _ | deregister _ | create _
      | registerTimeout _ _ _ _ _ => cases hx
  · intro hno bce p hx
    rw [NoExpiry] at hno
    rw [hno] at hx
    cases hx

/-! ### The invariant -/

/-- The timers of an entry, at time `now`. -/
structure EntryTimely (now accepted deregistered : ℤ) (bce : Entry) : Prop where
  /-- The lifetime of a reachable entry started with the last update accepted for it. -/
  reachable : bce.state = .reachable → bce.reachableTimer = some (accepted + bce.reachableTime)
  /-- The delay of a deregistering entry started with its deregistration. -/
  deregistering : bce.state = .deregistering → bce.deregisterTimer = some (deregistered +
    Time.milliSeconds Ipv6MobilityL4Protocol.minDelayBeforeBceDelete)
  allowed : bce.reachableTimer.Allows now ∧ bce.deregisterTimer.Allows now
  /-- A registration that is waiting has a lifetime. -/
  tentative : ∀ temp, bce.tentativeEntry = some temp → 0 ≤ temp.reachableTime

/-- The timers of every entry are in time. -/
def Timely (g : History) : Prop :=
  ∀ (p : ℕ) (bce : Entry), s.lma.bCache[p]? = some bce →
    EntryTimely s.now (g.acceptedAt p) (g.deregisteredAt p) bce

variable {g : History}

theorem Timely.enforced {s : Timed} (h : Timely s g) : LifetimeEnforced s g := by
  intro p bce hget
  have he := h p bce hget
  refine ⟨fun hr => ?_, fun hd => ?_⟩
  · exact he.allowed.1 _ (he.reachable hr)
  · exact he.allowed.2 _ (he.deregistering hd)

/-- A step that replaces one entry, when the history of the others stays. -/
theorem Timely.setEntry {now : ℤ} {lma lma' : Lma} {g g' : History} (h : Timely ⟨now, lma⟩ g) {p : ℕ}
    {bce' : Entry} (hset : lma'.bCache = lma.bCache.set p bce')
    (hg : ∀ q, q ≠ p → g'.acceptedAt q = g.acceptedAt q ∧ g'.deregisteredAt q = g.deregisteredAt q)
    (he : EntryTimely now (g'.acceptedAt p) (g'.deregisteredAt p) bce') : Timely ⟨now, lma'⟩ g' := by
  intro q x hx
  have hx' : (lma.bCache.set p bce')[q]? = some x := hset ▸ hx
  rcases getElem?_set_some hx' with ⟨rfl, rfl⟩ | ⟨hne, hq⟩
  · exact he
  · obtain ⟨ha, hd⟩ := hg q hne
    rw [ha, hd]
    exact h q x hq

theorem seconds_nonneg (n : ℕ) : 0 ≤ Time.seconds n := by
  unfold Time.seconds
  omega

/-- An entry whose registration was just accepted. -/
theorem EntryTimely.registered {now accepted deregistered : ℤ} {bce bce' : Entry}
    (h : EntryTimely now accepted deregistered bce) (hstate : bce'.state = .reachable)
    (htimer : bce'.reachableTimer = Timer.schedule now bce'.reachableTime) (hlife : 0 ≤ bce'.reachableTime)
    (hdereg : bce'.deregisterTimer = bce.deregisterTimer)
    (htemp : ∀ temp, bce'.tentativeEntry = some temp → bce.tentativeEntry = some temp) :
    EntryTimely now now deregistered bce' := by
  refine ⟨fun _ => htimer, fun hd => ?_, ⟨?_, ?_⟩, fun temp ht => h.tentative temp (htemp temp ht)⟩
  · rw [hstate] at hd
    cases hd
  · rw [htimer]
    exact Timer.allows_schedule hlife
  · rw [hdereg]
    exact h.allowed.2

theorem entryTimely_created (now : ℤ) (src : Ipv6Address) (pbu : Ipv6MobilityBindingUpdateHeader)
    (lma : Lma) (deregistered : ℤ) : EntryTimely now now deregistered (created now src pbu lma) := by
  refine ⟨fun _ => rfl, fun hd => ?_, ⟨?_, ?_⟩, fun temp ht => ?_⟩
  · cases hd
  · exact Timer.allows_schedule (seconds_nonneg _)
  · exact Timer.allows_none _
  · cases ht

/-- Steps in which nothing expires keep the timers in time. -/
theorem Timely.change {now : ℤ} {lma lma' : Lma} {e : Event} (h : Timely ⟨now, lma⟩ g) (hno : NoExpiry ⟨now, lma⟩ e)
    (hc : Change now lma e lma') : Timely ⟨now, lma'⟩ (History.record ⟨now, lma⟩ e g) := by
  have hsame : ∀ {p : ℕ} (q : ℕ), q ≠ p →
      (g.accept p now).acceptedAt q = g.acceptedAt q ∧
        (g.accept p now).deregisteredAt q = g.deregisteredAt q := fun q hq => ⟨if_neg hq, rfl⟩
  have haccept : ∀ p : ℕ, (g.accept p now).acceptedAt p = now := fun p => if_pos rfl
  cases hc with
  | advance => exact h
  | @idle src pbu hpath =>
    have hrec : History.record ⟨now, lma⟩ (.pbu src pbu) g = g := by
      cases hp : path now src pbu lma with
      | rejected _ | skip | foreign _ _ | unknown => simp only [History.record, hp]
      | _ => simp [hp, Path.isIdle] at hpath
    rw [hrec]
    exact h
  | @update src pbu bce p hpath =>
    obtain ⟨hget, -⟩ := getElem?_of_path (by rw [hpath]; rfl)
    simp only [History.record, hpath]
    refine h.setEntry rfl hsame ?_
    rw [haccept]
    exact (h p bce hget).registered rfl rfl (seconds_nonneg _) rfl fun _ ht => ht
  | @delay src pbu bce p hpath =>
    obtain ⟨hget, -⟩ := getElem?_of_path (by rw [hpath]; rfl)
    simp only [History.record, hpath]
    refine h.setEntry rfl (fun _ _ => ⟨rfl, rfl⟩) ⟨fun hr => ?_, fun hd => ?_, ?_, fun temp ht => ?_⟩
    · cases hr
    · cases hd
    · exact (h p bce hget).allowed
    · cases ht
      exact seconds_nonneg _
  | @handOff src pbu bce p n moved hpath hmove =>
    obtain ⟨hget, -⟩ := getElem?_of_path (by rw [hpath]; rfl)
    simp only [History.record, hpath]
    refine h.setEntry rfl hsame ?_
    rw [haccept]
    exact (h p bce hget).registered rfl rfl (seconds_nonneg _) rfl fun _ ht => ht
  | @deregister src pbu bce p hpath =>
    obtain ⟨hget, -⟩ := getElem?_of_path (by rw [hpath]; rfl)
    simp only [History.record, hpath]
    have he := h p bce hget
    refine h.setEntry rfl (fun q hq => ⟨rfl, if_neg hq⟩) ⟨fun hr => ?_, fun _ => ?_, ⟨he.allowed.1, ?_⟩,
      he.tentative⟩
    · cases hr
    · have hnow : (g.deregister p now).deregisteredAt p = now := if_pos rfl
      rw [hnow]
      rfl
    · exact Timer.allows_schedule (by decide)
  | @create src pbu hpath =>
    simp only [History.record, hpath]
    intro q x hx
    by_cases hq : q = lma.bCache.length
    · subst hq
      obtain rfl : created now src pbu lma = x :=
        Option.some.inj (List.getElem?_concat_length.symm.trans hx)
      rw [haccept]
      exact entryTimely_created now src pbu lma _
    · have hlt : q < lma.bCache.length := by
        have hlen : q < (lma.bCache ++ [created now src pbu lma]).length :=
          (List.getElem?_eq_some_iff.mp hx).1
        rw [List.length_append, List.length_singleton] at hlen
        omega
      obtain ⟨ha, hd⟩ := hsame q hq
      rw [ha, hd]
      exact h q x ((List.getElem?_append_left hlt).symm.trans hx)
  | @registerTimeout p bce moved temp n hget hdue htemp hlife hmove =>
    refine h.setEntry rfl hsame ?_
    rw [History.record, haccept]
    exact (h p bce hget).registered rfl rfl ((h p bce hget).tentative temp htemp) rfl fun _ ht => by cases ht
  | @reachableTimeout p bce hget hdue =>
    simp [NoExpiry, expiring, hget] at hno
  | @deregisterTimeout p bce hget hdue =>
    have he := h p bce hget
    refine h.setEntry rfl (fun _ _ => ⟨rfl, rfl⟩) ⟨he.reachable, fun hd => ?_, ⟨he.allowed.1, ?_⟩,
      he.tentative⟩
    · have hst : bce.state = .deregistering := hd
      simp [NoExpiry, expiring, hget, Entry.isDeregistering, hst] at hno
    · exact Timer.allows_none _

theorem Timely.advance {s : Timed} (h : Timely s g) {t : ℤ} (hen : Enabled s (.advance t)) : Timely ⟨t, s.lma⟩ g := by
  intro p bce hget
  have he := h p bce hget
  obtain ⟨hr, hd, -⟩ := hen.2 bce (List.mem_of_getElem? hget)
  exact ⟨he.reachable, he.deregistering, ⟨hr, hd⟩, he.tentative⟩

theorem Timely.step {s s' : Timed} {e : Event} (h : Timely s g) (hno : NoExpiry s e) (hs : machine.Step s e s') :
    Timely s' (History.record s e g) := by
  have hc := change_of_step hs
  obtain ⟨hen, hex⟩ := hs
  cases e with
  | advance t =>
    cases hex
    exact h.advance hen
  | pbu _ _ | registerTimeout _ | reachableTimeout _ | deregisterTimeout _ =>
    obtain ⟨_, -, rfl⟩ := Option.map_eq_some_iff.mp hex
    exact h.change hno hc

/-- In every run, the lifetime of the bindings is enforced if and only if no entry expires. -/
theorem lifetime_enforced {s₀ s : Timed} {tr : List (Timed × Event)} (h₀ : s₀.lma.bCache = [])
    (hrun : machine.Run s₀ tr s) :
    (Machine.EveryStep Releases tr s ∧ LifetimeEnforced s (Machine.history History.record .start tr)) ↔
      Machine.Meets NoExpiry tr := by
  have hiff := hrun.everyStep_iff fun _ _ _ => releases_iff
  refine ⟨fun h => hiff.mp h.1, fun hno => ⟨hiff.mpr hno, ?_⟩⟩
  refine Timely.enforced (hrun.invariant_history hno ?_ fun s e s' g hI hG hs => hI.step hG hs)
  intro p bce hget
  simp [h₀] at hget

/-- A mobile node registers for a minute and refreshes its binding after half of it. -/
def refreshedEvents : List Event :=
  [.pbu Small.magA (Small.update 1 60 Small.hnp 2 (Time.seconds 10)),
    .advance (Time.seconds 40),
    .pbu Small.magA (Small.update 2 60 Small.hnp 2 (Time.seconds 40)),
    .advance (Time.seconds 100)]

theorem lifetime_enforced_when_refreshed :
    ∃ out, machine.replay Small.anchor refreshedEvents = some out ∧ Machine.Meets NoExpiry out.1 ∧
      Machine.EveryStep Releases out.1 out.2 ∧
      LifetimeEnforced out.2 (Machine.history History.record .start out.1) := by
  obtain ⟨out, hout, hrun, hno⟩ := Machine.exists_replay Small.anchor refreshedEvents
    (M := machine) (P := fun out => Machine.Meets NoExpiry out.1) (by decide +kernel)
  exact ⟨out, hout, hno, (lifetime_enforced rfl hrun).mpr hno⟩

/-- A mobile node registers for a minute, and no gateway is heard of again. -/
def abandonedEvents : List Event :=
  [.pbu Small.magA (Small.update 1 60 Small.hnp 2 (Time.seconds 10)),
    .advance (Time.seconds 70),
    .reachableTimeout 0,
    .advance (Time.seconds 71)]

/-- Then the entry is still reachable after its lifetime, and nothing was released. -/
theorem lifetime_not_enforced :
    ∃ out, machine.replay Small.anchor abandonedEvents = some out ∧
      machine.Run Small.anchor out.1 out.2 ∧ Small.anchor.lma.bCache = [] ∧
      ¬ LifetimeEnforced out.2 (Machine.history History.record .start out.1) ∧
      ¬ Machine.EveryStep Releases out.1 out.2 := by
  obtain ⟨out, hout, hrun, hnow, hcache, haccepted, hexp⟩ :=
    Machine.exists_replay Small.anchor abandonedEvents
    (M := machine) (P := fun out => out.2.now = Time.seconds 71 ∧
      out.2.lma.bCache.map (fun e => (e.state, e.reachableTime)) = [(.reachable, Time.seconds 60)] ∧
      (Machine.history History.record .start out.1).acceptedAt 0 = Time.seconds 10 ∧
      ¬ Machine.Meets NoExpiry out.1) (by decide +kernel)
  refine ⟨out, hout, hrun, rfl, fun henf => ?_, fun hrel => ?_⟩
  · obtain ⟨bce, hbce, hfields⟩ := List.map_eq_singleton_iff.mp hcache
    obtain ⟨hstate, hlife⟩ := Prod.mk.inj hfields
    have hle := (henf 0 bce (by rw [hbce]; rfl)).1 hstate
    rw [hnow, haccepted, hlife] at hle
    exact absurd hle (by decide)
  · exact hexp ((hrun.everyStep_iff fun _ _ _ => releases_iff).mp hrel)

end Lma

end Ns3.Pmip6
