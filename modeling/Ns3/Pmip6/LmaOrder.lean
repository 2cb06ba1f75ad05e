import Ns3.Lib.Tally
import Ns3.Pmip6.LmaSteps

/-!
# The order of updates at the anchor

An entry records the time stamp of its last update. `HandlePbu` compares a time stamp with the
clock and not with the one recorded, so an update that was overtaken on its way takes effect;
`BA_STATUS_TIMESTAMP_LOWER_THAN_PREV_ACCEPTED` is declared for it and never sent.

## What is proved

`no_stale_binding` — in every run, no step makes an entry older or gives it the Proxy-CoA of an
older message, if and only if every update that takes effect on an entry is at least as new as
the entry (`Fresh`). `stale_binding_wins` is a run in which an overtaken update takes the binding
back.
-/

namespace Ns3.Pmip6

open BindingCache Lib

namespace Lma

/-- The time stamp a step brings to an entry: that of the update, or of the delayed registration
that waits in the entry. -/
def carried (e : Event) (bce : Entry) : Option ℤ :=
  match e with
  | .pbu _ message => some message.bundle.timestamp
  | .registerTimeout _ => bce.tentativeEntry.map (·.lastBindingUpdateTime)
  | .advance _ | .reachableTimeout _ | .deregisterTimeout _ => none

/-- What the step `e` may do to an entry: its time does not decrease, and it keeps its Proxy-CoA
when the time stamp it is brought is older. -/
def KeepsNewest (e : Event) (bce bce' : Entry) : Prop :=
  bce.lastBindingUpdateTime ≤ bce'.lastBindingUpdateTime ∧
    ∀ t, carried e bce = some t → t < bce.lastBindingUpdateTime → bce'.proxyCoa = bce.proxyCoa

/-- No stale binding wins in a step: every entry keeps to the newest message. -/
def KeepsOrder (s : Timed) (e : Event) (s' : Timed) : Prop :=
  ∀ (p : ℕ) (bce bce' : Entry), s.lma.bCache[p]? = some bce → s'.lma.bCache[p]? = some bce' →
    KeepsNewest e bce bce'

/-- An update with time stamp `t` is at least as new as the entry it takes effect on. -/
def Path.IsFresh (t : ℤ) : Path → Prop
  | update bce _ | handOff bce _ => bce.lastBindingUpdateTime ≤ t
  | rejected _ | skip | delay _ _ | deregister _ _ | foreign _ _ | create | unknown => True

instance (t : ℤ) (path : Path) : Decidable (path.IsFresh t) :=
  match path with
  | .update _ _ => inferInstanceAs (Decidable (_ ≤ _))
  | .handOff _ _ => inferInstanceAs (Decidable (_ ≤ _))
  | .rejected _ | .skip | .delay _ _ | .deregister _ _ | .foreign _ _ | .create | .unknown => isTrue trivial

/-- What takes effect on an entry, an update or a delayed registration, is at least as new as the
entry. -/
def Fresh (s : Timed) : Event → Prop
  | .pbu src message => (path s.now src message s.lma).IsFresh message.bundle.timestamp
  | .registerTimeout p => ∀ bce ∈ s.lma.bCache[p]?, ∀ temp ∈ bce.tentativeEntry,
      bce.lastBindingUpdateTime ≤ temp.lastBindingUpdateTime
  | .advance _ | .reachableTimeout _ | .deregisterTimeout _ => True

instance (s : Timed) (e : Event) : Decidable (Fresh s e) :=
  match e with
  | .pbu _ _ => inferInstanceAs (Decidable (Path.IsFresh _ _))
  | .registerTimeout p => inferInstanceAs (Decidable (∀ bce ∈ s.lma.bCache[p]?, ∀ _ ∈ _, _))
  | .advance _ | .reachableTimeout _ | .deregisterTimeout _ => isTrue trivial

theorem KeepsNewest.refl (e : Event) (bce : Entry) : KeepsNewest e bce bce :=
  ⟨Int.le_refl _, fun _ _ _ => rfl⟩

variable {e : Event} {bce bce' : Entry}

/-- An entry that keeps its time and its gateway keeps to the newest message. -/
theorem KeepsNewest.of_eq (htime : bce'.lastBindingUpdateTime = bce.lastBindingUpdateTime)
    (hcoa : bce'.proxyCoa = bce.proxyCoa) : KeepsNewest e bce bce' :=
  ⟨Int.le_of_eq htime.symm, fun _ _ _ => hcoa⟩

/-- An entry that takes over the time stamp it is brought keeps to the newest message exactly when
that one is not older. -/
theorem keepsNewest_iff_of_carried {t : ℤ} (hc : carried e bce = some t) (ht : bce'.lastBindingUpdateTime = t) :
    KeepsNewest e bce bce' ↔ bce.lastBindingUpdateTime ≤ t := by
  rw [KeepsNewest, ht]
  refine ⟨fun h => h.1, fun h => ⟨h, fun t' ht' hlt => ?_⟩⟩
  rw [hc, Option.some.injEq] at ht'
  omega

/-- A step that replaces one entry keeps the order exactly when that entry does. -/
theorem keepsOrder_iff_of_set {now now' : ℤ} {lma lma' : Lma} {p : ℕ} (hget : lma.bCache[p]? = some bce)
    (hset : lma'.bCache = lma.bCache.set p bce') : KeepsOrder ⟨now, lma⟩ e ⟨now', lma'⟩ ↔ KeepsNewest e bce bce' := by
  constructor
  · intro h
    refine h p bce bce' hget ?_
    show lma'.bCache[p]? = some bce'
    rw [hset, List.getElem?_set_self (List.getElem?_eq_some_iff.mp hget).1]
  · intro h q x x' hx hx'
    have hx'' : (lma.bCache.set p bce')[q]? = some x' := hset ▸ hx'
    rcases getElem?_set_some hx'' with ⟨rfl, rfl⟩ | ⟨-, hq⟩
    · obtain rfl : bce = x := Option.some.inj (hget.symm.trans hx)
      exact h
    · obtain rfl : x = x' := Option.some.inj (Eq.trans (Eq.symm hx) hq)
      exact .refl e x

theorem keepsOrder_of_extends {s s' : Timed} (h : s.lma.bCache <+: s'.lma.bCache) : KeepsOrder s e s' := by
  intro p bce bce' hget hget'
  obtain ⟨new, hnew⟩ := h
  rw [← hnew, List.getElem?_append_left (List.getElem?_eq_some_iff.mp hget).1, hget] at hget'
  cases hget'
  exact .refl e bce

/-- A step keeps the order exactly when what takes effect in it is fresh. -/
theorem keepsOrder_iff_fresh {s s' : Timed} (h : machine.Step s e s') : KeepsOrder s e s' ↔ Fresh s e := by
  have hc := change_of_step h
  obtain ⟨now, lma⟩ := s
  obtain ⟨now', lma'⟩ := s'
  cases hc with
  | advance => exact iff_of_true (keepsOrder_of_extends List.prefix_rfl) trivial
  | @idle src pbu hpath =>
    refine iff_of_true (keepsOrder_of_extends List.prefix_rfl) ?_
    show (path now src pbu lma).IsFresh _
    cases hp : path now src pbu lma with
    | update _ _ | handOff _ _ => simp [hp, Path.isIdle] at hpath
    | _ => exact trivial
  | @update src pbu bce p hpath =>
    obtain ⟨hget, -⟩ := getElem?_of_path (by rw [hpath]; rfl)
    rw [keepsOrder_iff_of_set hget rfl, keepsNewest_iff_of_carried (t := pbu.bundle.timestamp) rfl rfl]
    simp only [Fresh, hpath, Path.IsFresh]
  | @delay src pbu bce p hpath =>
    obtain ⟨hget, -⟩ := getElem?_of_path (by rw [hpath]; rfl)
    rw [keepsOrder_iff_of_set hget rfl]
    exact iff_of_true (.of_eq rfl rfl) (by simp only [Fresh, hpath, Path.IsFresh])
  | @handOff src pbu bce p n moved hpath hmove =>
    obtain ⟨hget, -⟩ := getElem?_of_path (by rw [hpath]; rfl)
    rw [keepsOrder_iff_of_set hget rfl, keepsNewest_iff_of_carried (t := pbu.bundle.timestamp) rfl rfl]
    simp only [Fresh, hpath, Path.IsFresh]
  | @deregister src pbu bce p hpath =>
    obtain ⟨hget, -⟩ := getElem?_of_path (by rw [hpath]; rfl)
    rw [keepsOrder_iff_of_set hget rfl]
    exact iff_of_true (.of_eq rfl rfl) (by simp only [Fresh, hpath, Path.IsFresh])
  | @create src pbu hpath =>
    exact iff_of_true (keepsOrder_of_extends (List.prefix_append _ _))
      (by simp only [Fresh, hpath, Path.IsFresh])
  | @registerTimeout p bce moved temp n hget hdue htemp hlife hmove =>
    rw [keepsOrder_iff_of_set hget rfl, keepsNewest_iff_of_carried (t := temp.lastBindingUpdateTime)
      (by rw [carried, htemp]; rfl) rfl]
    simp only [Fresh, hget, htemp, Option.mem_def, Option.some.injEq, forall_eq']
  | @reachableTimeout p bce hget hdue =>
    rw [keepsOrder_iff_of_set hget rfl]
    exact iff_of_true (.of_eq rfl rfl) trivial
  | @deregisterTimeout p bce hget hdue =>
    rw [keepsOrder_iff_of_set hget rfl]
    exact iff_of_true (.of_eq rfl rfl) trivial

/-- In every run, no stale binding wins if and only if what takes effect on an entry is fresh. -/
theorem no_stale_binding {s₀ s : Timed} {tr : List (Timed × Event)} (hrun : machine.Run s₀ tr s) :
    Machine.EveryStep KeepsOrder tr s ↔ Machine.Meets Fresh tr :=
  hrun.everyStep_iff fun _ _ _ => keepsOrder_iff_fresh

/-- A mobile node is handed off from A to B, in the order the updates were sent. -/
def orderedEvents : List Event :=
  [.pbu Small.magA (Small.update 1 60 Small.hnp 2 (Time.seconds 10)),
    .advance (Time.seconds 12),
    .pbu Small.magB (Small.update 1 60 Small.hnp 3 (Time.seconds 12))]

theorem no_stale_binding_in_order :
    ∃ out, machine.replay Small.anchor orderedEvents = some out ∧
      (Machine.EveryStep KeepsOrder out.1 out.2 ↔ Machine.Meets Fresh out.1) := by
  obtain ⟨out, hout, hrun, -⟩ := Machine.exists_replay Small.anchor orderedEvents
    (M := machine) (P := fun _ => True) (by decide +kernel)
  exact ⟨out, hout, no_stale_binding hrun⟩

/-- An update of A is overtaken by the handoff to B, and arrives after it. -/
def overtakenEvents : List Event :=
  orderedEvents ++
    [.advance (Time.seconds 13),
      .pbu Small.magA (Small.update 2 60 Small.hnp 2 (Time.seconds 11))]

/-- Then the mobile node is back at A, with the older time. -/
theorem stale_binding_wins :
    ∃ out, machine.replay Small.anchor overtakenEvents = some out ∧ machine.Run Small.anchor out.1 out.2 ∧
      out.2.lma.bCache.map (fun e => (e.proxyCoa, e.lastBindingUpdateTime)) =
        [(Small.magA, Time.seconds 11)] ∧
      ¬ Machine.EveryStep KeepsOrder out.1 out.2 := by
  obtain ⟨out, hout, hrun, hold, hstale⟩ := Machine.exists_replay Small.anchor overtakenEvents
    (M := machine) (P := fun out =>
      out.2.lma.bCache.map (fun e => (e.proxyCoa, e.lastBindingUpdateTime)) =
        [(Small.magA, Time.seconds 11)] ∧ ¬ Machine.Meets Fresh out.1) (by decide +kernel)
  refine ⟨out, hout, hrun, hold, fun hkeeps => hstale ?_⟩
  exact (hrun.everyStep_iff fun _ _ _ => keepsOrder_iff_fresh).mp hkeeps

end Lma

end Ns3.Pmip6
