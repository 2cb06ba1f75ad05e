import Ns3.Internet.NdiscTimers

/-!
# The timers of the neighbour cache

Where an entry is marked stale because its neighbour has another link-layer address, no timer of it is stopped: a
solicitation or a router advertisement, and an advertisement without the override flag for an entry that is
reachable, leave what was pending. A node that solicits us while we ask for its address is the common case: its
entry is stale, and then delayed by our answer, with the retransmission timer pending, which removes it when the
solicitations are used up. The handlers of advertisements stop the timers in the cases beside these.

## What is proved

* `Keeps` — the condition: a message does not make an entry stale that has a timer pending.
* `Contract` — timers are pending only in their states, packets wait while the front of the list may be read, and
  an entry whose address was learnt is removed only after `MAX_UNICAST_SOLICIT` probes that were not answered, by
  a flush, or for lack of a local address.
* `contract_iff` — a run keeps to the contract exactly if all its events meet the condition.
* `contract_fails` — the solicitation of a neighbour that is being asked for.
-/

namespace Ns3.NdiscCache

open Lib

universe u

variable {α : Type u} {cfg : Config α} {now : ℤ} {interface : List InterfaceAddress} {p : α}
  {dst src target : Ipv6Address} {lla : Address} {kind : TimerKind} {e e' : Entry α} {c c' : NdiscCache α}
  {out : NdiscCache α × List (Action α)} {s s' : Timed α} {event : Event α}

/-! ### The condition -/

/-- A message does not make an entry stale that has a timer pending. -/
def Timed.Keeps (s : Timed α) : Event α → Prop
  | .rs src (some lla) => src ≠ .zero → Quiet s.cache src lla
  | .ns uid src target (some lla) => (solicited s.interface uid target).isSome → src ≠ .zero → Quiet s.cache src lla
  | .ra src (some lla) =>
    ∀ e, s.cache.lookup src = some e → e.state ≠ .incomplete → e.macAddress.equal lla = false → e.Idle
  | .na _ target flags (some lla) =>
    flags.o = false →
      ∀ e, s.cache.lookup target = some e → lla.equal e.macAddress = false → e.state = .reachable → e.Idle
  | .rs _ none | .ns _ _ _ none | .ra _ none | .na _ _ _ none => True
  | .advance _ | .setAddresses _ | .send .. | .timeout .. | .flush => True

instance (e : Entry α) : Decidable e.Idle :=
  decidable_of_iff (e.reachableTimer = none ∧ e.retransTimer = none ∧ e.probeTimer = none ∧ e.delayTimer = none)
    ⟨fun ⟨h₁, h₂, h₃, h₄⟩ kind => by cases kind <;> assumption, fun h => ⟨h .reachable, h .retrans, h .probe, h .delay⟩⟩

instance (c : NdiscCache α) (dst : Ipv6Address) (lla : Address) : Decidable (Quiet c dst lla) :=
  inferInstanceAs (Decidable (∀ e ∈ c.lookup dst, e.macAddress.equal lla = false → e.Idle))

instance (s : Timed α) : (event : Event α) → Decidable (s.Keeps event)
  | .rs _ (some _) => inferInstanceAs (Decidable (_ → Quiet _ _ _))
  | .ns _ _ _ (some _) => inferInstanceAs (Decidable (_ → _ → Quiet _ _ _))
  | .ra src (some _) => inferInstanceAs (Decidable (∀ e ∈ s.cache.lookup src, _ → _ → e.Idle))
  | .na _ target _ (some _) => inferInstanceAs (Decidable (_ → ∀ e ∈ s.cache.lookup target, _ → _ → e.Idle))
  | .rs _ none | .ns _ _ _ none | .ra _ none | .na _ _ _ none => .isTrue trivial
  | .advance _ | .setAddresses _ | .send .. | .timeout .. | .flush => .isTrue trivial

/-- A message that is not about a timer does to the entries what it should, where it meets the condition. -/
theorem message_kept (h : Sound s.cache) (hkeeps : s.Keeps event) (hflush : event ≠ .flush)
    (htimer : ∀ kind dst, event ≠ .timeout kind dst) (hout : s.handle cfg event = some out) : Kept s.cache out.1 := by
  cases event with
  | advance => exact Option.some.inj hout ▸ .refl h
  | setAddresses => exact Option.some.inj hout ▸ .refl h
  | send p dest => exact send_kept h hout
  | flush => exact absurd rfl hflush
  | timeout kind dst => exact absurd rfl (htimer kind dst)
  | rs src lla =>
    simp only [Timed.handle, handleRS] at hout
    split_ifs at hout with hsrc
    · exact Option.some.inj hout ▸ .refl h
    · cases lla with
      | none => exact Option.some.inj hout ▸ .refl h
      | some lla => exact Option.some.inj hout ▸ learn_kept h (hkeeps hsrc)
  | ns uid src target lla =>
    simp only [Timed.handle, handleNS] at hout
    cases hsol : solicited s.interface uid target with
    | none =>
      simp only [hsol] at hout
      exact Option.some.inj hout ▸ .refl h
    | some ifaddr =>
      simp only [hsol] at hout
      split_ifs at hout with hsrc
      · exact answer_kept h hout
      · cases lla with
        | none => exact Option.some.inj hout ▸ .refl h
        | some lla =>
          have hsolicited : (solicited s.interface uid target).isSome := by rw [hsol]; rfl
          have hlearnt := learn_kept h (hkeeps hsolicited hsrc)
          exact hlearnt.trans (answer_kept hlearnt.sound hout)
  | na src target flags lla =>
    refine (handleNA_kept h (fun e mac he hlla ho hmac hreach => ?_) hout).1
    subst hlla
    exact hkeeps ho e he hmac hreach
  | ra src lla =>
    cases lla with
    | none => exact Option.some.inj hout ▸ .refl h
    | some lla => exact receiveLLA_kept h hkeeps hout

/-! ### Timers -/

/-- An entry that has run out of its timer is asked for again, or given up. -/
theorem retransmit_cases {addr : Ipv6Address} (hidle : e.Idle) (hinc : e.state = .incomplete)
    (hwaiting : e.waiting ≠ []) (hout : c.retransmit now dst addr e = some out) :
    (∃ e', out.1 = c.insert dst e' ∧ e'.Sound ∧ e'.state = .incomplete) ∨ out.1 = c.erase dst := by
  unfold retransmit at hout
  split_ifs at hout
  · split at hout
    · cases hout
    · rename_i e' hstart
      obtain ⟨t, -, rfl⟩ := Option.map_eq_some_iff.mp hstart
      cases hout
      refine .inl ⟨_, rfl, Entry.sound_of_others (fun kind hne => ?_) fun _ => hwaiting, hinc⟩
      cases kind with
      | reachable => exact hidle .reachable
      | retrans => exact absurd hinc hne
      | probe => exact hidle .probe
      | delay => exact hidle .delay
  · split at hout
    · cases hout
    · cases hout
      exact .inr rfl

/-- An entry is probed. -/
theorem probe_cases (hidle : e.Idle) (hprobe : e.state = .probe) (hout : c.probe now dst e = some out) :
    ∃ e', out.1 = c.insert dst e' ∧ e'.Sound ∧ e'.state = .probe ∧ e'.nsRetransmit = e.nsRetransmit + 1 ∧
      ∃ mac, out.2 = [.probe dst mac] := by
  unfold probe at hout
  split at hout
  · cases hout
  · rename_i e' hstart
    obtain ⟨t, -, rfl⟩ := Option.map_eq_some_iff.mp hstart
    cases hout
    refine ⟨_, rfl, Entry.sound_of_others (fun kind hne => ?_) fun hinc => ?_, hprobe, rfl, _, rfl⟩
    · cases kind with
      | reachable => exact hidle .reachable
      | retrans => exact hidle .retrans
      | probe => exact absurd hprobe hne
      | delay => exact hidle .delay
    · exact State.noConfusion (hprobe.symm.trans hinc)

/-- What the function of a timer leaves of an entry. -/
inductive TimedOut (interface : List InterfaceAddress) (dst : Ipv6Address) (e : Entry α) (c : NdiscCache α) :
    TimerKind → NdiscCache α × List (Action α) → Prop where
  | stale {e' : Entry α} {sent : List (Action α)} : e'.Idle → e'.state = .stale →
      TimedOut interface dst e c .reachable (c.insert dst e', sent)
  | again {e' : Entry α} {sent : List (Action α)} : e'.Sound → e'.state = .incomplete →
      TimedOut interface dst e c .retrans (c.insert dst e', sent)
  /-- It is given up, and the address was not learnt. -/
  | unresolved {sent : List (Action α)} : TimedOut interface dst e c .retrans (c.erase dst, sent)
  /-- It is probed, after the delay or once more. -/
  | probed {kind : TimerKind} {e' : Entry α} {mac : Address} : kind = .delay ∨ kind = .probe → e'.Sound →
      e'.state = .probe → e'.nsRetransmit = (if kind = .delay then 0 else e.nsRetransmit) + 1 →
      TimedOut interface dst e c kind (c.insert dst e', [.probe dst mac])
  /-- It is for `::`, and is left without a timer. -/
  | left {kind : TimerKind} {e' : Entry α} {sent : List (Action α)} : kind = .delay ∨ kind = .probe → e'.Idle →
      e'.state = .probe → TimedOut interface dst e c kind (c.insert dst e', sent)
  /-- There is no local address for it. -/
  | expired {kind : TimerKind} {sent : List (Action α)} : kind = .delay ∨ kind = .probe →
      source interface dst = some .expired → TimedOut interface dst e c kind (c.erase dst, sent)
  | unreachable {sent : List (Action α)} : maxUnicastSolicit ≤ e.nsRetransmit →
      TimedOut interface dst e c .probe (c.erase dst, sent)

/-- The function of a timer of a sound entry does one of these. -/
theorem timedOut (h : Sound c) (he : c.lookup dst = some e) (hdue : (e.timer kind).isSome)
    (hout : c.timeout now interface kind dst (e.fire kind) = some out) : TimedOut interface dst e c kind out := by
  have hsound := h dst e he
  have hstate := hsound.timers kind hdue
  have hidle := hsound.idle_fire hstate
  obtain ⟨c', sent⟩ := out
  unfold timeout at hout
  cases kind with
  | reachable =>
    obtain ⟨rfl, rfl⟩ := Prod.mk.inj (Option.some.inj hout)
    exact .stale (fun kind => (Entry.timer_markStale _).trans (hidle kind)) rfl
  | retrans =>
    have hcases : ∀ addr, c.retransmit now dst addr (e.fire .retrans) = some (c', sent) →
        TimedOut interface dst e c .retrans (c', sent) := by
      intro addr hretransmit
      rcases retransmit_cases hidle hstate (hsound.waiting hstate) hretransmit with ⟨e', rfl, hsound', hinc⟩ | rfl
      · exact .again hsound' hinc
      · exact .unresolved
    cases hsource : source interface dst with
    | none => simp only [hsource, reduceCtorEq] at hout
    | some found =>
      simp only [hsource] at hout
      cases found with
      | found addr => exact hcases addr hout
      | any => exact hcases .zero hout
      | expired =>
        obtain ⟨rfl, rfl⟩ := Prod.mk.inj (Option.some.inj hout)
        exact .unresolved
  | delay =>
    cases hsource : source interface dst with
    | none => simp only [hsource, reduceCtorEq] at hout
    | some found =>
      simp only [hsource] at hout
      have hidle' : (e.fire .delay).markProbe.Idle := by
        intro kind
        cases kind with
        | reachable => exact hidle .reachable
        | retrans => exact hidle .retrans
        | probe => exact hidle .probe
        | delay => rfl
      cases found with
      | found addr =>
        have hidle'' : (e.fire .delay).markProbe.resetNSRetransmit.Idle := by
          intro kind
          cases kind with
          | reachable => exact hidle .reachable
          | retrans => exact hidle .retrans
          | probe => exact hidle .probe
          | delay => rfl
        obtain ⟨e', rfl, hsound', hprobe, hcount, mac, rfl⟩ := probe_cases hidle'' rfl hout
        exact .probed (.inl rfl) hsound' hprobe hcount
      | any =>
        obtain ⟨rfl, rfl⟩ := Prod.mk.inj (Option.some.inj hout)
        exact .left (.inl rfl) hidle' rfl
      | expired =>
        obtain ⟨rfl, rfl⟩ := Prod.mk.inj (Option.some.inj hout)
        exact .expired (.inl rfl) hsource
  | probe =>
    dsimp only at hout
    split_ifs at hout with hless
    · cases hsource : source interface dst with
      | none => simp only [hsource, reduceCtorEq] at hout
      | some found =>
        simp only [hsource] at hout
        cases found with
        | found addr =>
          obtain ⟨e', rfl, hsound', hprobe, hcount, mac, rfl⟩ := probe_cases hidle hstate hout
          exact .probed (.inr rfl) hsound' hprobe hcount
        | any =>
          obtain ⟨rfl, rfl⟩ := Prod.mk.inj (Option.some.inj hout)
          exact .left (.inr rfl) hidle hstate
        | expired =>
          obtain ⟨rfl, rfl⟩ := Prod.mk.inj (Option.some.inj hout)
          exact .expired (.inr rfl) hsource
    · obtain ⟨rfl, rfl⟩ := Prod.mk.inj (Option.some.inj hout)
      exact .unreachable (Nat.le_of_not_lt hless)

/-- It keeps the invariant. -/
theorem TimedOut.sound (hout : TimedOut interface dst e c kind out) (h : Sound c) : Sound out.1 := by
  cases hout with
  | stale hidle hstale => exact h.insert (hidle.sound (by rw [hstale]; exact State.noConfusion))
  | again hsound => exact h.insert hsound
  | unresolved => exact h.erase
  | probed _ hsound => exact h.insert hsound
  | left _ hidle hprobe => exact h.insert (hidle.sound (by rw [hprobe]; exact State.noConfusion))
  | expired => exact h.erase
  | unreachable => exact h.erase

theorem timeout_of_handle (henabled : s.Enabled (.timeout kind dst))
    (hout : s.handle cfg (.timeout kind dst) = some out) :
    ∃ e, s.cache.lookup dst = some e ∧ (e.timer kind).isSome ∧
      s.cache.timeout s.now s.interface kind dst (e.fire kind) = some out := by
  obtain ⟨e, he, hdue⟩ := henabled
  have he : s.cache.lookup dst = some e := he
  simp only [Timed.handle, he] at hout
  refine ⟨e, he, ?_, hout⟩
  rw [hdue]
  rfl

theorem handle_sound (h : Sound s.cache) (henabled : s.Enabled event) (hkeeps : s.Keeps event)
    (hout : s.handle cfg event = some out) : Sound out.1 := by
  cases hevent : event with
  | flush =>
    subst hevent
    exact Option.some.inj hout ▸ sound_empty
  | timeout kind dst =>
    subst hevent
    obtain ⟨e, he, hsome, htimeout⟩ := timeout_of_handle henabled hout
    exact (timedOut h he hsome htimeout).sound h
  | advance | setAddresses | send | rs | ns | na | ra =>
    subst hevent
    exact (message_kept h hkeeps (fun heq => by cases heq) (fun _ _ heq => by cases heq) hout).sound

/-! ### The condition is needed -/

theorem learn_of_not_quiet (hquiet : ¬ Quiet c src lla) :
    ∃ e, (learn lla src c).lookup src = some e ∧ e.state = .stale ∧ ¬ e.Idle := by
  unfold Quiet at hquiet
  push Not at hquiet
  obtain ⟨e, he, hmac, hpending⟩ := hquiet
  have hlearn : learn lla src c = c.insert src (e.markStaleAt lla) := by
    simp only [learn, he, hmac, Bool.not_false, if_true]
  rw [hlearn]
  refine ⟨_, AList.lookup_insert _, rfl, fun hidle => hpending fun kind => ?_⟩
  rw [← Entry.timer_markStaleAt lla e]
  exact hidle kind

/-- What is sent to its neighbour does not help: the entry is stale, or delayed. -/
theorem send_of_stale (he : c.lookup dst = some e) (hstale : e.state = .stale) (hpending : ¬ e.Idle)
    (hout : c.send now cfg interface p dst = some out) : ¬ TimersMatch out.1 := by
  unfold send at hout
  split_ifs at hout
  · exact Option.some.inj hout ▸ not_timersMatch_of_stale he hstale hpending
  · exact Option.some.inj hout ▸ not_timersMatch_of_stale he hstale hpending
  · simp only [lookupAndSend, he, hstale] at hout
    split at hout
    · cases hout
    · rename_i e' hstart
      obtain ⟨t, hdelay, rfl⟩ := Option.map_eq_some_iff.mp hstart
      cases hout
      obtain ⟨hnone, -⟩ := schedule_eq_some.mp hdelay
      intro hmatch
      refine hpending fun kind => ?_
      have hstate := hmatch dst _ kind (AList.lookup_insert _)
      cases kind with
      | reachable => exact Option.not_isSome_iff_eq_none.mp fun hsome => by cases hstate hsome
      | retrans => exact Option.not_isSome_iff_eq_none.mp fun hsome => by cases hstate hsome
      | probe => exact Option.not_isSome_iff_eq_none.mp fun hsome => by cases hstate hsome
      | delay => exact hnone

/-- A message that does not meet the condition leaves a timer pending in another state. -/
theorem not_timersMatch_of_not_keeps (h : Sound s.cache) (hnot : ¬ s.Keeps event)
    (hout : s.handle cfg event = some out) : ¬ TimersMatch out.1 := by
  cases event with
  | advance | setAddresses | send | timeout | flush => exact absurd trivial hnot
  | rs src lla =>
    cases lla with
    | none => exact absurd trivial hnot
    | some lla =>
      obtain ⟨hsrc, hquiet⟩ := Classical.not_imp.mp hnot
      simp only [Timed.handle, handleRS, if_neg hsrc] at hout
      obtain ⟨e, he, hstale, hpending⟩ := learn_of_not_quiet hquiet
      exact Option.some.inj hout ▸ not_timersMatch_of_stale he hstale hpending
  | ns uid src target lla =>
    cases lla with
    | none => exact absurd trivial hnot
    | some lla =>
      obtain ⟨hsolicited, hnot⟩ := Classical.not_imp.mp hnot
      obtain ⟨hsrc, hquiet⟩ := Classical.not_imp.mp hnot
      obtain ⟨ifaddr, hsol⟩ := Option.isSome_iff_exists.mp hsolicited
      have hany : src.isAny = false := by simpa [Ipv6Address.isAny] using hsrc
      simp only [Timed.handle, handleNS, hsol, if_neg hsrc, answer, hany, Bool.false_eq_true, if_false] at hout
      obtain ⟨e, he, hstale, hpending⟩ := learn_of_not_quiet hquiet
      split at hout
      · cases hout
      · exact send_of_stale he hstale hpending hout
  | na src target flags lla =>
    cases lla with
    | none => exact absurd trivial hnot
    | some lla =>
      obtain ⟨ho, hnot⟩ := Classical.not_imp.mp hnot
      push Not at hnot
      obtain ⟨e, he, hmac, hreach, hpending⟩ := hnot
      have hsound := h target e he
      have hinc : e.state ≠ .incomplete := by rw [hreach]; exact State.noConfusion
      have hmac' : lla.equal e.stopProbeTimer.stopDelayTimer.macAddress = false := hmac
      have hreach' : e.stopProbeTimer.stopDelayTimer.state = .reachable := hreach
      simp only [Timed.handle, handleNA, he, if_neg hinc, advertisedKnown, ho, hmac', Bool.not_false, Bool.and_self,
        if_true, if_pos hreach'] at hout
      cases hout
      refine not_timersMatch_of_stale (AList.lookup_insert _) rfl fun hidle => hpending fun kind => ?_
      by_cases hkind : kind = .reachable
      · subst hkind
        exact hidle .reachable
      · refine hsound.timer_eq_none kind ?_
        rw [hreach]
        cases kind <;> first | exact State.noConfusion | exact absurd rfl hkind
  | ra src lla =>
    cases lla with
    | none => exact absurd trivial hnot
    | some lla =>
      unfold Timed.Keeps at hnot
      push Not at hnot
      obtain ⟨e, he, hinc, hmac, hpending⟩ := hnot
      simp only [Timed.handle, receiveLLA, he, if_neg hinc, hmac, Bool.not_false, if_true] at hout
      cases hout
      refine not_timersMatch_of_stale (AList.lookup_insert _) rfl fun hidle => hpending fun kind => ?_
      have hkind := hidle kind
      rw [Entry.timer_setRouter, Entry.timer_markStale, Entry.timer_setMacAddress] at hkind
      exact hkind

/-! ### The probes -/

/-- The action is a probe. -/
def Action.isProbe : Action α → Bool
  | .probe .. => true
  | .solicit _ | .unreachable .. | .send .. | .deliver _ => false

/-- The probes that are counted for the neighbours after a timer has sent so many to one: the first probe starts
anew. -/
def TimerKind.probes (kind : TimerKind) (dst : Ipv6Address) (sent : ℕ) (g : Ipv6Address → ℕ) : Ipv6Address → ℕ :=
  match kind with
  | .delay => Function.update g dst sent
  | .probe => Function.update g dst (g dst + sent)
  | .reachable | .retrans => g

/-- The probes that each neighbour has not answered, since its delay timer ran out last. -/
def unanswered (cfg : Config α) (s : Timed α) (event : Event α) (g : Ipv6Address → ℕ) : Ipv6Address → ℕ :=
  match event, s.handle cfg event with
  | .timeout kind dst, some (_, sent) => kind.probes dst (sent.countP Action.isProbe) g
  | .na _ target _ (some _), some _ => Function.update g target 0
  | _, _ => g

/-- Entries that are probed count the probes that were not answered. -/
def Probing (g : Ipv6Address → ℕ) (c : NdiscCache α) : Prop :=
  ∀ dst e, c.lookup dst = some e → e.probeTimer.isSome → e.nsRetransmit = g dst

variable {g : Ipv6Address → ℕ}

theorem Probing.kept (h : Probing g c) (hkept : Kept c c') : Probing g c' := by
  intro dst e' he' hsome
  obtain ⟨e, he, hsome₀, hcount⟩ := hkept.probes dst e' he' hsome
  rw [← hcount]
  exact h dst e he hsome₀

/-- An entry is put into the cache, with as many probes as are counted for it. -/
theorem Probing.insert {n : ℕ} (h : Probing g c) (dst : Ipv6Address)
    (hcount : e.probeTimer.isSome → e.nsRetransmit = n) : Probing (Function.update g dst n) (c.insert dst e) := by
  intro k x hx hsome
  rcases Store.lookup_insert_some hx with ⟨rfl, rfl⟩ | ⟨hne, hx⟩
  · rw [Function.update_self]
    exact hcount hsome
  · rw [Function.update_of_ne hne]
    exact h k x hx hsome

theorem Probing.erase (h : Probing g c) (dst : Ipv6Address) (n : ℕ) :
    Probing (Function.update g dst n) (c.erase dst) := by
  intro k x hx hsome
  obtain ⟨hne, hx⟩ := Store.lookup_erase_some hx
  rw [Function.update_of_ne hne]
  exact h k x hx hsome

/-- The function of a timer keeps the count. -/
theorem TimedOut.probing (hout : TimedOut interface dst e c kind out) (h : Probing g c)
    (hcount : kind = .probe → e.nsRetransmit = g dst) :
    Probing (kind.probes dst (out.2.countP Action.isProbe) g) out.1 := by
  have hself : Function.update g dst (g dst) = g := Function.update_eq_self dst g
  have hidle : ∀ {e' : Entry α} {n : ℕ}, e'.probeTimer = none → e'.probeTimer.isSome → e'.nsRetransmit = n := by
    intro e' n hnone hsome
    rw [hnone] at hsome
    cases hsome
  have hquiet : ∀ {e' : Entry α}, e'.probeTimer = none → Probing g (c.insert dst e') := by
    intro e' hnone
    have hinsert := h.insert dst (hidle (n := g dst) hnone)
    rwa [hself] at hinsert
  cases hout with
  | stale hstale => exact hquiet (hstale .probe)
  | again hsound hinc =>
    refine hquiet (hsound.timer_eq_none .probe ?_)
    rw [hinc]
    exact State.noConfusion
  | unresolved =>
    have herase := h.erase dst (g dst)
    rwa [hself] at herase
  | probed hkind hsound hprobe hn =>
    rcases hkind with rfl | rfl
    · exact h.insert dst fun _ => hn
    · refine h.insert dst fun _ => ?_
      rw [hn, if_neg TimerKind.noConfusion, hcount rfl]
      rfl
  | left hkind hleft =>
    rcases hkind with rfl | rfl
    · exact h.insert dst (hidle (hleft .probe))
    · exact h.insert dst (hidle (hleft .probe))
  | expired hkind =>
    rcases hkind with rfl | rfl
    · exact h.erase dst _
    · exact h.erase dst _
  | unreachable => exact h.erase dst _

/-- A step that meets the condition keeps the count. -/
theorem handle_probing (h : Sound s.cache) (hprobing : Probing g s.cache) (henabled : s.Enabled event)
    (hkeeps : s.Keeps event) (hout : s.handle cfg event = some out) : Probing (unanswered cfg s event g) out.1 := by
  cases hevent : event with
  | flush =>
    subst hevent
    cases hout
    intro dst e he
    cases he
  | timeout kind dst =>
    subst hevent
    obtain ⟨e, he, hsome, htimeout⟩ := timeout_of_handle henabled hout
    have hcount : kind = .probe → e.nsRetransmit = g dst := by
      rintro rfl
      exact hprobing dst e he hsome
    simp only [unanswered, hout]
    exact (timedOut h he hsome htimeout).probing hprobing hcount
  | na src target flags lla =>
    subst hevent
    have hkept := message_kept h hkeeps (fun heq => by cases heq) (fun _ _ heq => by cases heq) hout
    cases lla with
    | none => exact hprobing.kept hkept
    | some lla =>
      have hprobe := (handleNA_kept h (fun e mac he hlla ho hmac hreach => by
        cases hlla
        exact hkeeps ho e he hmac hreach) hout).2 rfl
      intro k x hx hsome
      simp only [unanswered, hout]
      by_cases hk : k = target
      · subst hk
        rw [hprobe x hx] at hsome
        cases hsome
      · rw [Function.update_of_ne hk]
        exact hprobing.kept hkept k x hx hsome
  | advance | setAddresses | send | rs | ns | ra =>
    subst hevent
    exact hprobing.kept (message_kept h hkeeps (fun heq => by cases heq) (fun _ _ heq => by cases heq) hout)

/-! ### The contract -/

/-- An event takes the entry of a neighbour out of the cache whose address was learnt. -/
def Timed.Forgets (cfg : Config α) (s : Timed α) (event : Event α) (dst : Ipv6Address) : Prop :=
  ∃ e out, s.cache.lookup dst = some e ∧ e.state ≠ .incomplete ∧ s.handle cfg event = some out ∧
    out.1.lookup dst = none

/-- What an entry whose address was learnt may be taken out by, with the number of probes that were not answered. -/
def Timed.MayForget (s : Timed α) (event : Event α) (dst : Ipv6Address) (probes : ℕ) : Prop :=
  event = .flush ∨
  (source s.interface dst = some .expired ∧ (event = .timeout .delay dst ∨ event = .timeout .probe dst)) ∨
  (event = .timeout .probe dst ∧ maxUnicastSolicit ≤ probes)

/-- Sound entries are taken out for these reasons only. -/
theorem mayForget (h : Sound s.cache) (hprobing : Probing g s.cache) (henabled : s.Enabled event)
    (hkeeps : s.Keeps event) (hforgets : s.Forgets cfg event dst) : s.MayForget event dst (g dst) := by
  obtain ⟨e, out, he, hlearnt, hout, hgone⟩ := hforgets
  cases hevent : event with
  | flush => exact .inl rfl
  | timeout kind dst' =>
    subst hevent
    obtain ⟨e', he', hsome, htimeout⟩ := timeout_of_handle henabled hout
    have htimedOut := timedOut h he' hsome htimeout
    have hdst : dst = dst' := by
      by_contra hne
      have hother : out.1.lookup dst = s.cache.lookup dst := by
        cases htimedOut with
        | stale | again | probed | left => exact AList.lookup_insert_ne hne
        | unresolved | expired | unreachable => exact AList.lookup_erase_ne hne
      rw [hother, he] at hgone
      cases hgone
    subst hdst
    obtain rfl := Option.some.inj (he.symm.trans he')
    cases htimedOut with
    | stale | again | probed | left =>
      rw [AList.lookup_insert] at hgone
      cases hgone
    | unresolved => exact absurd ((h dst e he).timers .retrans hsome) hlearnt
    | expired hkind hsource =>
      rcases hkind with rfl | rfl
      · exact .inr (.inl ⟨hsource, .inl rfl⟩)
      · exact .inr (.inl ⟨hsource, .inr rfl⟩)
    | unreachable hcount =>
      rw [hprobing dst e he hsome] at hcount
      exact .inr (.inr ⟨rfl, hcount⟩)
  | advance | setAddresses | send | rs | ns | na | ra =>
    subst hevent
    have hkept := message_kept h hkeeps (fun heq => by cases heq) (fun _ _ heq => by cases heq) hout
    obtain ⟨e', he', -⟩ := hkept.learnt dst e he hlearnt
    rw [he'] at hgone
    cases hgone

/-- The probes that were not answered in a run. -/
def unansweredIn (cfg : Config α) (tr : List (Timed α × Event α)) : Ipv6Address → ℕ :=
  Machine.history (unanswered cfg) (fun _ => 0) tr

/-- What a run of a cache should be like. -/
structure Contract (cfg : Config α) (tr : List (Timed α × Event α)) (s : Timed α) : Prop where
  /-- A timer is pending only in its state. -/
  timers : Machine.EveryState (fun s => TimersMatch s.cache) tr s
  /-- The list of waiting packets has a front when the retransmission timer may run out. -/
  fronts : Machine.EveryState
    (fun s => ∀ dst e, s.cache.lookup dst = some e → e.retransTimer.isSome → e.waiting ≠ []) tr s
  /-- Entries whose address was learnt are taken out for a reason. -/
  forgets : ∀ tr₁ x tr₂ dst, tr = tr₁ ++ x :: tr₂ → x.1.Forgets cfg x.2 dst →
    x.1.MayForget x.2 dst (unansweredIn cfg tr₁ dst)

theorem after_cache (s : Timed α) (c : NdiscCache α) (event : Event α) : (s.after c event).cache = c := by
  cases event <;> rfl

theorem handle_of_step (hstep : (machine cfg).Step s event s') :
    ∃ out, s.handle cfg event = some out ∧ s'.cache = out.1 := by
  obtain ⟨out, hout, rfl⟩ := Option.map_eq_some_iff.mp hstep.2
  exact ⟨out, hout, after_cache s out.1 event⟩

theorem sound_of_run {start : ℤ} {tr : List (Timed α × Event α)} (hrun : (machine cfg).Run ⟨start, interface, ∅⟩ tr s)
    (hkeeps : Machine.Meets Timed.Keeps tr) : Sound s.cache ∧ Probing (unansweredIn cfg tr) s.cache := by
  refine hrun.invariant_history (I := fun s g => Sound s.cache ∧ Probing g s.cache) hkeeps ?_ ?_
  · refine ⟨sound_empty, fun dst e he => ?_⟩
    cases he
  · intro s event s' g ⟨hsound, hprobing⟩ hmeets hstep
    obtain ⟨out, hout, heq⟩ := handle_of_step hstep
    rw [heq]
    exact ⟨handle_sound hsound hstep.1 hmeets hout, handle_probing hsound hprobing hstep.1 hmeets hout⟩

/-- A run of a cache that starts empty keeps to the contract exactly if no message makes an entry stale that has a
timer pending. -/
theorem contract_iff {start : ℤ} {tr : List (Timed α × Event α)} (hrun : (machine cfg).Run ⟨start, interface, ∅⟩ tr s) :
    Contract cfg tr s ↔ Machine.Meets Timed.Keeps tr := by
  obtain ⟨hiff, hsound⟩ := hrun.everyState_iff_of_invariant (G := Timed.Keeps) (I := fun s => TimersMatch s.cache)
    (J := fun s => Sound s.cache) sound_empty (fun s h => h.timersMatch) (fun s event s' h hstep => by
      obtain ⟨out, hout, heq⟩ := handle_of_step hstep
      rw [heq]
      refine ⟨⟨fun hmatch => ?_, fun hkeeps => ?_⟩, fun hkeeps => handle_sound h hstep.1 hkeeps hout⟩
      · by_contra hnot
        exact not_timersMatch_of_not_keeps h hnot hout hmatch
      · exact (handle_sound h hstep.1 hkeeps hout).timersMatch)
  constructor
  · exact fun hcontract => hiff.mp hcontract.timers
  · intro hkeeps
    obtain ⟨hall, hlast⟩ := hsound hkeeps
    have hfront : ∀ s : Timed α, Sound s.cache →
        ∀ dst e, s.cache.lookup dst = some e → e.retransTimer.isSome → e.waiting ≠ [] := by
      intro s h dst e he hsome
      exact (h dst e he).waiting ((h dst e he).timers .retrans hsome)
    refine ⟨hiff.mpr hkeeps, ⟨fun x hx => hfront x.1 (hall x hx), hfront s hlast⟩, ?_⟩
    intro tr₁ x tr₂ dst htr hforgets
    -- the run up to the event
    have hprefix : (machine cfg).Run ⟨start, interface, ∅⟩ tr₁ x.1 ∧ x.1.Enabled x.2 := by
      have hflush : (machine cfg).enabled s .flush := trivial
      have hmore : tr ++ [(s, .flush)] = tr₁ ++ x :: (tr₂ ++ [(s, .flush)]) := by
        rw [htr, List.append_assoc, List.cons_append]
      exact hrun.split hflush hmore
    have hmeets : Machine.Meets Timed.Keeps tr₁ := fun y hy => hkeeps y (by rw [htr]; exact List.mem_append_left _ hy)
    obtain ⟨h, hprobing⟩ := sound_of_run hprefix.1 hmeets
    exact mayForget h hprobing hprefix.2 (hkeeps x (by rw [htr]; simp)) hforgets

namespace Small

/-- A host. -/
def config : Config ℕ := ⟨false, fun _ _ flags => flags, fun _ => ⟨6, [0x33, 0x33, 0, 0, 0, 1]⟩⟩

theorem last_lt : 15 < 16 := by decide

/-- `fe80::n`. -/
def host (n : UInt8) : Ipv6Address := ⟨Ipv6Address.linkLocal.address.set 15 n last_lt⟩

/-- The address of the host, `fe80::1`. -/
def addresses : List InterfaceAddress := [⟨host 1, Vector.replicate 16 255, 7⟩]

/-- The link-layer address of its neighbour. -/
def neighbour : Address := ⟨6, [0, 0, 0, 0, 0, 2]⟩

/-- A neighbour is asked for and answers, its entry gets stale, and is probed in vain. -/
def probed : List (Event ℕ) :=
  [.send 10 (host 2),
    .na (host 2) (host 1) ⟨false, true, true⟩ (some neighbour),
    .na (host 2) (host 2) ⟨false, true, true⟩ (some neighbour),
    .advance (Time.seconds 30),
    .timeout .reachable (host 2),
    .send 11 (host 2),
    .advance (Time.seconds 35),
    .timeout .delay (host 2),
    .advance (Time.seconds 36),
    .timeout .probe (host 2),
    .advance (Time.seconds 37),
    .timeout .probe (host 2),
    .advance (Time.seconds 38),
    .timeout .probe (host 2)]

/-- A neighbour that is asked for solicits the host. -/
def solicitedBy : List (Event ℕ) :=
  [.send 10 (host 2), .ns 0 (host 2) (host 1) (some neighbour)]

end Small

/-- The entry is removed, and the run keeps to the contract. -/
theorem contract_probed :
    ∃ out, (machine Small.config).replay ⟨0, Small.addresses, ∅⟩ Small.probed = some out ∧
      out.2.cache.lookup (Small.host 2) = none ∧ Contract Small.config out.1 out.2 := by
  obtain ⟨out, hout, hrun, hkeeps, hgone⟩ := Machine.exists_replay ⟨0, Small.addresses, ∅⟩ Small.probed
    (M := machine Small.config)
    (P := fun out => Machine.Meets Timed.Keeps out.1 ∧ out.2.cache.lookup (Small.host 2) = none) (by decide +kernel)
  exact ⟨out, hout, hgone, (contract_iff hrun).mpr hkeeps⟩

/-- The neighbour's entry is delayed, and the retransmission timer is pending. -/
theorem contract_fails :
    ¬ ∀ (tr : List (Timed ℕ × Event ℕ)) (s : Timed ℕ),
      (machine Small.config).Run ⟨0, Small.addresses, ∅⟩ tr s → Contract Small.config tr s := by
  intro hall
  obtain ⟨out, hout, hrun, hdelay⟩ := Machine.exists_replay ⟨0, Small.addresses, ∅⟩ Small.solicitedBy
    (M := machine Small.config)
    (P := fun out => ∃ e ∈ out.2.cache.lookup (Small.host 2), e.state = .delay ∧ (e.timer .retrans).isSome)
    (by decide +kernel)
  obtain ⟨e, he, hstate, hsome⟩ := hdelay
  have hmatch := (hall _ _ hrun).timers.2 (Small.host 2) e .retrans he hsome
  rw [hstate] at hmatch
  cases hmatch

end Ns3.NdiscCache
