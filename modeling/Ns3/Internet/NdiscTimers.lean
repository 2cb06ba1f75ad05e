import Ns3.Internet.NdiscCache

/-!
# What messages do to the entries of the neighbour cache

Each of the four timers of an entry belongs to one state. The handlers of messages stop the timers and mark the state
separately.

* `TimersMatch`, `Sound` — the invariant: a timer is pending only in its state, and packets wait while an
  entry is incomplete.
* `Kept` — what a handler does: it keeps the invariant, does not probe an entry, and does not remove an entry whose
  address was learnt.
* `send_kept`, `learn_kept`, `receiveLLA_kept`, `handleNA_kept` — the handlers do this, where they do not make an
  entry stale that has a timer pending.
-/

namespace Ns3.NdiscCache

open Lib

universe u

variable {α : Type u} {cfg : Config α} {now : ℤ} {interface : List InterfaceAddress} {p : α}
  {dst dest src target : Ipv6Address} {mac lla : Address} {kind : TimerKind} {e e' : Entry α} {c c' : NdiscCache α}
  {out : NdiscCache α × List (Action α)}

/-! ### Entries -/

namespace Entry

@[simp] theorem timer_setRouter (router : Bool) (e : Entry α) : (e.setRouter router).timer kind = e.timer kind := by
  cases kind <;> rfl

@[simp] theorem timer_setMacAddress (mac : Address) (e : Entry α) :
    (e.setMacAddress mac).timer kind = e.timer kind := by
  cases kind <;> rfl

@[simp] theorem timer_markReachableAt (mac : Address) (e : Entry α) :
    (e.markReachableAt mac).timer kind = e.timer kind := by
  cases kind <;> rfl

@[simp] theorem timer_markStale (e : Entry α) : e.markStale.timer kind = e.timer kind := by
  cases kind <;> rfl

@[simp] theorem timer_markStaleAt (mac : Address) (e : Entry α) : (e.markStaleAt mac).timer kind = e.timer kind := by
  cases kind <;> rfl

end Entry

theorem schedule_eq_some {delay : ℤ} {t t' : Timer} :
    schedule now delay t = some t' ↔ t = none ∧ t' = Timer.schedule now delay := by
  cases t with
  | none => simp [schedule, eq_comm]
  | some d => simp [schedule]

namespace Entry

/-- No timer of the entry is pending. -/
def Idle (e : Entry α) : Prop := ∀ kind, e.timer kind = none

/-- A timer is pending only in its state, and packets wait for the answer that is asked for. -/
structure Sound (e : Entry α) : Prop where
  timers : ∀ kind, (e.timer kind).isSome → e.state = kind.state
  waiting : e.state = .incomplete → e.waiting ≠ []

theorem Sound.timer_eq_none (h : e.Sound) (kind : TimerKind) (hne : e.state ≠ kind.state) : e.timer kind = none := by
  cases ht : e.timer kind with
  | none => rfl
  | some d =>
    have hsome : (e.timer kind).isSome := by rw [ht]; rfl
    exact absurd (h.timers kind hsome) hne

theorem Idle.sound (h : e.Idle) (hne : e.state ≠ .incomplete) : e.Sound := by
  refine ⟨fun kind hsome => ?_, fun heq => absurd heq hne⟩
  rw [h kind] at hsome
  cases hsome

theorem Sound.idle_of_stale (h : e.Sound) (hstale : e.state = .stale) : e.Idle := by
  intro kind
  refine h.timer_eq_none kind ?_
  rw [hstale]
  cases kind <;> exact State.noConfusion

/-- Only the timer of its state is left when the others are not pending. -/
theorem sound_of_others (hothers : ∀ kind, e.state ≠ kind.state → e.timer kind = none)
    (hwaiting : e.state = .incomplete → e.waiting ≠ []) : e.Sound := by
  refine ⟨fun kind hsome => ?_, hwaiting⟩
  by_contra hne
  rw [hothers kind hne] at hsome
  cases hsome

theorem Sound.idle_fire (h : e.Sound) (hstate : e.state = kind.state) : (e.fire kind).Idle := by
  have hothers : ∀ k, k ≠ kind → e.timer k = none := by
    intro k hk
    refine h.timer_eq_none k ?_
    rw [hstate]
    cases kind <;> cases k <;> first | exact State.noConfusion | exact absurd rfl hk
  intro k
  by_cases hk : k = kind
  · subst hk
    cases k <;> rfl
  · have hk' := hothers k hk
    cases kind <;> cases k <;> first | rfl | exact hk'

end Entry

/-! ### The invariant -/

/-- A timer is pending only in its state. -/
def TimersMatch (c : NdiscCache α) : Prop :=
  ∀ dst e kind, c.lookup dst = some e → (e.timer kind).isSome → e.state = kind.state

/-- All the entries are sound. -/
def Sound (c : NdiscCache α) : Prop := ∀ dst e, c.lookup dst = some e → e.Sound

theorem Sound.timersMatch (h : Sound c) : TimersMatch c := fun dst e kind he hsome => (h dst e he).timers kind hsome

theorem sound_empty : Sound (∅ : NdiscCache α) := by
  intro dst e he
  cases he

theorem Sound.insert (h : Sound c) (he : e.Sound) : Sound (c.insert dst e) :=
  Store.forall_insert (P := fun (_ : Ipv6Address) (e : Entry α) => e.Sound) h he

theorem Sound.erase (h : Sound c) : Sound (c.erase dst) := fun _ _ he => h _ _ (Store.lookup_erase_some he).2

/-- A stale entry with a timer. -/
theorem not_timersMatch_of_stale (he : c.lookup dst = some e) (hstale : e.state = .stale) (hpending : ¬ e.Idle) :
    ¬ TimersMatch c := by
  intro hmatch
  refine hpending fun kind => ?_
  cases ht : e.timer kind with
  | none => rfl
  | some d =>
    have hstate := hmatch dst e kind he (by rw [ht]; rfl)
    rw [hstale] at hstate
    cases kind <;> cases hstate

/-- What the handler of a message does to the entries. -/
structure Kept (c c' : NdiscCache α) : Prop where
  sound : Sound c'
  /-- Where an entry is probed, it was, and as often. -/
  probes : ∀ dst e', c'.lookup dst = some e' → e'.probeTimer.isSome →
    ∃ e, c.lookup dst = some e ∧ e.probeTimer.isSome ∧ e.nsRetransmit = e'.nsRetransmit
  /-- An entry whose address is known is still there. -/
  learnt : ∀ dst e, c.lookup dst = some e → e.state ≠ .incomplete →
    ∃ e', c'.lookup dst = some e' ∧ e'.state ≠ .incomplete

namespace Kept

theorem of_lookup_eq (h : Sound c) (heq : ∀ dst, c'.lookup dst = c.lookup dst) : Kept c c' := by
  constructor
  · intro dst e he
    rw [heq] at he
    exact h dst e he
  · intro dst e' he' hprobe
    rw [heq] at he'
    exact ⟨e', he', hprobe, rfl⟩
  · intro dst e he hlearnt
    exact ⟨e, (heq dst).trans he, hlearnt⟩

theorem refl (h : Sound c) : Kept c c := of_lookup_eq h fun _ => rfl

theorem trans {c'' : NdiscCache α} (h : Kept c c') (h' : Kept c' c'') : Kept c c'' := by
  refine ⟨h'.sound, fun dst e' he' hprobe => ?_, fun dst e he hlearnt => ?_⟩
  · obtain ⟨e, he, hsome, hcount⟩ := h'.probes dst e' he' hprobe
    obtain ⟨e₀, he₀, hsome₀, hcount₀⟩ := h.probes dst e he hsome
    exact ⟨e₀, he₀, hsome₀, hcount₀.trans hcount⟩
  · obtain ⟨e', he', hlearnt'⟩ := h.learnt dst e he hlearnt
    exact h'.learnt dst e' he' hlearnt'

/-- An entry is added, or changed without probing and without forgetting its address. -/
theorem insert (h : Sound c) (he' : e'.Sound) (hprobe : e'.probeTimer = none ∨
      ∃ e, c.lookup dst = some e ∧ e.probeTimer = e'.probeTimer ∧ e.nsRetransmit = e'.nsRetransmit)
    (hlearnt : e'.state = .incomplete → ∀ e, c.lookup dst = some e → e.state = .incomplete) :
    Kept c (c.insert dst e') := by
  refine ⟨h.insert he', fun k x hx hsome => ?_, fun k x hx hknown => ?_⟩
  · rcases Store.lookup_insert_some hx with ⟨rfl, rfl⟩ | ⟨-, hx⟩
    · rcases hprobe with hnone | ⟨e, he, heq, hcount⟩
      · rw [hnone] at hsome
        cases hsome
      · rw [← heq] at hsome
        exact ⟨e, he, hsome, hcount⟩
    · exact ⟨x, hx, hsome, rfl⟩
  · by_cases hk : k = dst
    · subst hk
      exact ⟨e', AList.lookup_insert _, fun heq => hknown (hlearnt heq x hx)⟩
    · exact ⟨x, (AList.lookup_insert_ne hk).trans hx, hknown⟩

theorem probeTimer_eq_none (h : Kept c c') (hnone : ∀ e, c.lookup dst = some e → e.probeTimer = none)
    (he' : c'.lookup dst = some e') : e'.probeTimer = none := by
  cases ht : e'.probeTimer with
  | none => rfl
  | some d =>
    obtain ⟨e, he, hsome, -⟩ := h.probes dst e' he' (by rw [ht]; rfl)
    rw [hnone e he] at hsome
    cases hsome

end Kept

/-! ### One thing after the other -/

theorem andThen_eq_some {x : Outcome α} {f : NdiscCache α → Outcome α} (h : x.andThen f = some out) :
    ∃ out₁ out₂, x = some out₁ ∧ f out₁.1 = some out₂ ∧ out = (out₂.1, out₁.2 ++ out₂.2) := by
  unfold Outcome.andThen at h
  cases x with
  | none => cases h
  | some out₁ =>
    obtain ⟨out₂, hout₂, rfl⟩ := Option.map_eq_some_iff.mp h
    exact ⟨out₁, out₂, rfl, hout₂, rfl⟩

theorem modify_eq_some {f : Entry α → Option (Entry α)} (h : c.modify dst f = some out) :
    ∃ e e', c.lookup dst = some e ∧ f e = some e' ∧ out = (c.insert dst e', []) := by
  unfold modify at h
  cases hf : (c.lookup dst).bind f with
  | none => simp only [hf, reduceCtorEq] at h
  | some e' =>
    simp only [hf] at h
    obtain ⟨e, he, hfe⟩ := Option.bind_eq_some_iff.mp hf
    cases h
    exact ⟨e, e', he, hfe, rfl⟩

/-! ### Sending -/

/-- A neighbour is asked for. -/
theorem contact_kept (h : Sound c) (hnone : c.lookup dst = none)
    (hout : c.contact now interface p dst = some out) : Kept c out.1 := by
  have habsent : ∀ e, c.lookup dst = some e → False := by
    intro e he
    rw [hnone] at he
    cases he
  simp only [contact] at hout
  split_ifs at hout with hglobal
  · cases hout
    refine .of_lookup_eq h fun k => ?_
    by_cases hk : k = dst
    · subst hk
      rw [remove, AList.lookup_erase, hnone]
    · rw [remove, AList.lookup_erase_ne hk, AList.lookup_insert_ne hk]
  all_goals
    split at hout
    · rename_i e _ hstart
      obtain ⟨t, -, rfl⟩ := Option.map_eq_some_iff.mp hstart
      cases hout
      refine .insert h (Entry.sound_of_others (fun kind hne => ?_) fun _ => ?_) (.inl rfl) ?_
      · cases kind <;> first | rfl | exact absurd rfl hne
      · exact List.cons_ne_nil _ _
      · exact fun _ e he => (habsent e he).elim
    · cases hout

/-- A packet goes out, or waits. -/
theorem lookupAndSend_kept (h : Sound c) (hout : c.lookupAndSend now interface p dst = some out) : Kept c out.1 := by
  unfold lookupAndSend at hout
  cases he : c.lookup dst with
  | none =>
    rw [he] at hout
    exact contact_kept h he hout
  | some e =>
    have hsound := h dst e he
    simp only [he] at hout
    have hwaits : e.state = .incomplete ∨ e.state = .probe → Kept c (c.insert dst (e.addWaitingPacket p)) := by
      intro hstate
      refine .insert h ⟨hsound.timers, fun _ => ?_⟩ (.inr ⟨e, he, rfl, rfl⟩) fun hinc x hx => ?_
      · exact List.append_ne_nil_of_right_ne_nil _ (List.cons_ne_nil _ _)
      · obtain rfl := Option.some.inj (he.symm.trans hx)
        exact hinc
    cases hs : e.state with
    | reachable =>
      simp only [hs] at hout
      cases hout
      exact .refl h
    | delay =>
      simp only [hs] at hout
      cases hout
      exact .refl h
    | incomplete =>
      simp only [hs] at hout
      cases hout
      exact hwaits (.inl hs)
    | probe =>
      simp only [hs] at hout
      cases hout
      exact hwaits (.inr hs)
    | stale =>
      simp only [hs] at hout
      cases hstart : e.startDelayTimer now with
      | none => simp only [hstart, reduceCtorEq] at hout
      | some e' =>
        simp only [hstart] at hout
        cases hout
        obtain ⟨t, -, rfl⟩ := Option.map_eq_some_iff.mp hstart
        have hidle := hsound.idle_of_stale hs
        refine .insert h (Entry.sound_of_others (fun kind hne => ?_) State.noConfusion) (.inl (hidle .probe))
          State.noConfusion
        cases kind <;> first | exact hidle .reachable | exact hidle .retrans | exact hidle .probe | exact absurd rfl hne

theorem send_kept (h : Sound c) (hout : c.send now cfg interface p dest = some out) : Kept c out.1 := by
  unfold send at hout
  split_ifs at hout
  · cases hout
    exact .refl h
  · cases hout
    exact .refl h
  · exact lookupAndSend_kept h hout

theorem sendAll_kept {waiting : List α} (h : Sound c) (hout : sendAll now cfg interface dest waiting c = some out) :
    Kept c out.1 := by
  induction waiting generalizing c out with
  | nil =>
    cases hout
    exact .refl h
  | cons p waiting ih =>
    obtain ⟨out₁, out₂, hsend, hrest, rfl⟩ := andThen_eq_some hout
    have hfirst := send_kept h hsend
    have hothers := ih hfirst.sound hrest
    exact hfirst.trans hothers

/-- Sending leaves an entry that is reachable as it is. -/
theorem lookupAndSend_of_reachable (he : c.lookup target = some e) (hreach : e.state = .reachable)
    (hout : c.lookupAndSend now interface p dst = some out) : out.1.lookup target = some e := by
  by_cases hdst : target = dst
  · subst hdst
    simp only [lookupAndSend, he, hreach] at hout
    cases hout
    exact he
  · unfold lookupAndSend at hout
    cases he' : c.lookup dst with
    | none =>
      simp only [he', contact] at hout
      split_ifs at hout
      · cases hout
        rw [remove, AList.lookup_erase_ne hdst, AList.lookup_insert_ne hdst]
        exact he
      all_goals
        split at hout
        · cases hout
          exact (AList.lookup_insert_ne hdst).trans he
        · cases hout
    | some e' =>
      simp only [he'] at hout
      split at hout
      · cases hout
        exact he
      · cases hout
        exact he
      · split at hout
        · cases hout
        · cases hout
          exact (AList.lookup_insert_ne hdst).trans he
      · cases hout
        exact (AList.lookup_insert_ne hdst).trans he
      · cases hout
        exact (AList.lookup_insert_ne hdst).trans he

theorem sendAll_of_reachable {waiting : List α} (he : c.lookup target = some e) (hreach : e.state = .reachable)
    (hout : sendAll now cfg interface dest waiting c = some out) : out.1.lookup target = some e := by
  induction waiting generalizing c out with
  | nil =>
    cases hout
    exact he
  | cons p waiting ih =>
    obtain ⟨out₁, out₂, hsend, hrest, rfl⟩ := andThen_eq_some hout
    have hfirst : out₁.1.lookup target = some e := by
      unfold send at hsend
      split_ifs at hsend
      · cases hsend
        exact he
      · cases hsend
        exact he
      · exact lookupAndSend_of_reachable he hreach hsend
    have hothers := ih hfirst hrest
    exact hothers

/-! ### Messages -/

theorem sendWaiting_of_reachable (hreach : e.state = .reachable)
    (hout : c.sendWaiting now cfg interface dst src e = some out) :
    out.1.lookup dst = some e.clearWaitingPacket := by
  obtain ⟨out₂, out₃, hsend, hclear, rfl⟩ := andThen_eq_some hout
  obtain ⟨out₁, out₂', hput, hall, rfl⟩ := andThen_eq_some hsend
  cases hput
  have hsent := sendAll_of_reachable (AList.lookup_insert c) hreach hall
  obtain ⟨e₁, e₂, he₁, hclear', rfl⟩ := modify_eq_some hclear
  obtain rfl := Option.some.inj (hsent.symm.trans he₁)
  cases hclear'
  exact AList.lookup_insert _

/-- What waits for an entry that is not probed is sent, and the list is cleared. -/
theorem sendWaiting_kept (h : Sound c) (he : e.Sound) (hprobe : e.probeTimer = none) (hlearnt : e.state ≠ .incomplete)
    (hout : c.sendWaiting now cfg interface dst src e = some out) :
    Kept c out.1 ∧ ∀ e', out.1.lookup dst = some e' → e'.probeTimer = none := by
  obtain ⟨out₂, out₃, hsend, hclear, rfl⟩ := andThen_eq_some hout
  obtain ⟨out₁, out₂', hput, hall, rfl⟩ := andThen_eq_some hsend
  cases hput
  have hfirst : Kept c (c.insert dst e) := .insert h he (.inl hprobe) fun hinc => absurd hinc hlearnt
  have hsent : Kept (c.insert dst e) out₂'.1 := sendAll_kept hfirst.sound hall
  have hcleared : Kept out₂'.1 out₃.1 := by
    obtain ⟨e₁, e₂, he₁, hclear', rfl⟩ := modify_eq_some hclear
    cases hclear'
    obtain ⟨e₁', he₁', hlearnt₁⟩ := hsent.learnt dst e (AList.lookup_insert _) hlearnt
    obtain rfl := Option.some.inj (he₁.symm.trans he₁')
    refine .insert hsent.sound ⟨(hsent.sound dst e₁ he₁).timers, ?_⟩ (.inr ⟨e₁, he₁, rfl, rfl⟩) ?_
    · exact fun hinc => absurd hinc hlearnt₁
    · exact fun hinc => absurd hinc hlearnt₁
  refine ⟨hfirst.trans (hsent.trans hcleared), fun e' he' => ?_⟩
  refine (hsent.trans hcleared).probeTimer_eq_none (fun x hx => ?_) he'
  obtain rfl := Option.some.inj ((AList.lookup_insert _).symm.trans hx)
  exact hprobe

/-- An entry is marked reachable, and its reachable timer is started. -/
theorem sound_of_reachable (hidle : ∀ kind, kind ≠ .reachable → e.timer kind = none) (hstate : e.state = .reachable) :
    e.Sound := by
  refine Entry.sound_of_others (fun kind hne => hidle kind ?_) fun hinc => ?_
  · rintro rfl
    exact hne hstate
  · rw [hstate] at hinc
    cases hinc

/-- An entry with no other timer is resolved. -/
theorem resolved_kept (h : Sound c) (hidle : ∀ kind, kind ≠ .reachable → e.timer kind = none)
    (hout : c.resolved now cfg interface dst src mac e = some out) :
    Kept c out.1 ∧ ∀ e', out.1.lookup dst = some e' → e'.probeTimer = none := by
  unfold resolved at hout
  cases hstart : (e.markReachableAt mac).stopReachableTimer.startReachableTimer now with
  | none => simp only [hstart, reduceCtorEq] at hout
  | some e₁ =>
    simp only [hstart] at hout
    obtain ⟨t, -, rfl⟩ := Option.map_eq_some_iff.mp hstart
    have hprobe := hidle .probe TimerKind.noConfusion
    refine sendWaiting_kept (e := { (e.markReachableAt mac).stopReachableTimer with reachableTimer := t }) h
      (sound_of_reachable (fun kind hne => ?_) rfl) hprobe State.noConfusion hout
    cases kind with
    | reachable => exact absurd rfl hne
    | retrans => exact hidle .retrans hne
    | probe => exact hidle .probe hne
    | delay => exact hidle .delay hne

/-- The entry of an address that came with another link-layer address has no timer pending. -/
def Quiet (c : NdiscCache α) (dst : Ipv6Address) (lla : Address) : Prop :=
  ∀ e, c.lookup dst = some e → e.macAddress.equal lla = false → e.Idle

/-- A source link-layer address is learnt. -/
theorem learn_kept (h : Sound c) (hquiet : Quiet c src lla) : Kept c (learn lla src c) := by
  unfold learn
  cases he : c.lookup src with
  | none =>
    refine .insert h (Entry.Idle.sound (fun kind => ?_) State.noConfusion) (.inl rfl) State.noConfusion
    cases kind <;> rfl
  | some e =>
    dsimp only
    split_ifs with hmac
    · have hidle := hquiet e he (by simpa using hmac)
      refine .insert h (Entry.Idle.sound (fun kind => ?_) State.noConfusion) (.inl (hidle .probe)) State.noConfusion
      rw [Entry.timer_markStaleAt]
      exact hidle kind
    · exact .refl h

/-- A router advertises its link-layer address. -/
theorem receiveLLA_kept (h : Sound c)
    (hquiet : ∀ e, c.lookup src = some e → e.state ≠ .incomplete → e.macAddress.equal lla = false → e.Idle)
    (hout : c.receiveLLA now cfg interface lla src = some out) : Kept c out.1 := by
  unfold receiveLLA at hout
  cases he : c.lookup src with
  | none =>
    simp only [he] at hout
    split at hout
    · cases hout
    · rename_i e hstart
      obtain ⟨t, -, rfl⟩ := Option.map_eq_some_iff.mp hstart
      cases hout
      refine .insert h (sound_of_reachable (fun kind hne => ?_) rfl) (.inl rfl) State.noConfusion
      cases kind <;> first | exact absurd rfl hne | rfl
  | some e =>
    have hsound := h src e he
    simp only [he] at hout
    split_ifs at hout with hinc hmac hreach
    · refine (resolved_kept h (fun kind hne => ?_) hout).1
      cases kind
      · exact absurd rfl hne
      · rfl
      · exact hsound.timer_eq_none .probe (by rw [hinc]; exact State.noConfusion)
      · exact hsound.timer_eq_none .delay (by rw [hinc]; exact State.noConfusion)
    · cases hout
      have hidle := hquiet e he hinc (by simpa using hmac)
      refine .insert h (Entry.Idle.sound (fun kind => ?_) State.noConfusion) (.inl (hidle .probe)) State.noConfusion
      rw [Entry.timer_setRouter, Entry.timer_markStale, Entry.timer_setMacAddress]
      exact hidle kind
    · split at hout
      · cases hout
      · rename_i e₁ hstart
        obtain ⟨t, -, rfl⟩ := Option.map_eq_some_iff.mp hstart
        cases hout
        refine .insert h (sound_of_reachable (fun kind hne => ?_) rfl) (.inl rfl) State.noConfusion
        cases kind
        · exact absurd rfl hne
        · exact hsound.timer_eq_none .retrans hinc
        · rfl
        · rfl
    · cases hout
      exact .refl h

theorem answer_kept {ifaddr : InterfaceAddress} (h : Sound c)
    (hout : c.answer now cfg interface ifaddr src target = some out) : Kept c out.1 := by
  unfold answer at hout
  dsimp only at hout
  split at hout
  · cases hout
  · exact send_kept h hout

/-- An entry that is asked for is advertised. -/
theorem advertisedIncomplete_kept {flags : Flags} (h : Sound c) (he : c.lookup target = some e)
    (hinc : e.state = .incomplete)
    (hout : c.advertisedIncomplete now cfg interface src target flags lla e = some out) :
    Kept c out.1 ∧ ∀ e', out.1.lookup target = some e' → e'.probeTimer = none := by
  have hsound := h target e he
  have hother : ∀ kind, kind ≠ .retrans → e.timer kind = none := by
    intro kind hne
    refine hsound.timer_eq_none kind ?_
    rw [hinc]
    cases kind <;> first | exact State.noConfusion | exact absurd rfl hne
  have hidle : e.stopRetransmitTimer.Idle := by
    intro kind
    cases kind with
    | reachable => exact hother .reachable TimerKind.noConfusion
    | retrans => rfl
    | probe => exact hother .probe TimerKind.noConfusion
    | delay => exact hother .delay TimerKind.noConfusion
  obtain ⟨out₁, out₂, hfirst, hrouter, rfl⟩ := andThen_eq_some hout
  have hkept : Kept c out₁.1 ∧ ∀ e', out₁.1.lookup target = some e' → e'.probeTimer = none := by
    split_ifs at hfirst
    · exact resolved_kept h (fun kind _ => hidle kind) hfirst
    · cases hfirst
      have hstale : (e.stopRetransmitTimer.markStaleAt lla).Idle := fun kind =>
        (Entry.timer_markStaleAt lla _).trans (hidle kind)
      refine ⟨.insert h (hstale.sound State.noConfusion) (.inl (hstale .probe)) State.noConfusion, fun e' he' => ?_⟩
      obtain rfl := Option.some.inj ((AList.lookup_insert _).symm.trans he')
      exact hstale .probe
  split_ifs at hrouter
  · obtain ⟨e₁, e₂, he₁, hset, rfl⟩ := modify_eq_some hrouter
    cases hset
    have hsound₁ := hkept.1.sound target e₁ he₁
    have hlast : Kept out₁.1 (out₁.1.insert target (e₁.setRouter true)) := by
      refine .insert hkept.1.sound ⟨fun kind hsome => ?_, hsound₁.waiting⟩ (.inr ⟨e₁, he₁, rfl, rfl⟩) ?_
      · rw [Entry.timer_setRouter] at hsome
        exact hsound₁.timers kind hsome
      · intro hinc' x hx
        obtain rfl := Option.some.inj (he₁.symm.trans hx)
        exact hinc'
    exact ⟨hkept.1.trans hlast, fun e' he' => hlast.probeTimer_eq_none hkept.2 he'⟩
  · cases hrouter
    exact hkept

/-- The reachable timer of an entry that was marked reachable starts anew. -/
theorem restart_kept {router : Bool} (h : Kept c c') (he : c'.lookup target = some e) (hreach : e.state = .reachable)
    (hout : c'.modify target (fun e => (e.stopReachableTimer.startReachableTimer now).map (Entry.setRouter router)) =
      some out) : Kept c out.1 ∧ ∀ e', out.1.lookup target = some e' → e'.probeTimer = none := by
  obtain ⟨e₁, e₂, he₁, hstart, rfl⟩ := modify_eq_some hout
  obtain rfl := Option.some.inj (he.symm.trans he₁)
  obtain ⟨e₃, hstarted, rfl⟩ := Option.map_eq_some_iff.mp hstart
  obtain ⟨t, -, rfl⟩ := Option.map_eq_some_iff.mp hstarted
  have hsound := h.sound target e he
  have hother : ∀ kind, kind ≠ .reachable → e.timer kind = none := by
    intro kind hne
    refine hsound.timer_eq_none kind ?_
    rw [hreach]
    cases kind <;> first | exact State.noConfusion | exact absurd rfl hne
  have hprobe : e.probeTimer = none := hother .probe TimerKind.noConfusion
  refine ⟨h.trans (.insert h.sound (sound_of_reachable (fun kind hne => ?_) hreach) (.inl hprobe) fun hinc => ?_), ?_⟩
  · rw [Entry.timer_setRouter]
    cases kind with
    | reachable => exact absurd rfl hne
    | retrans => exact hother .retrans hne
    | probe => exact hother .probe hne
    | delay => exact hother .delay hne
  · exact State.noConfusion (hreach.symm.trans hinc)
  · intro e' he'
    obtain rfl := Option.some.inj ((AList.lookup_insert _).symm.trans he')
    exact hprobe

/-- Another entry is advertised, and is not made stale with a timer pending. -/
theorem advertisedKnown_kept {flags : Flags} (h : Sound c) (he : c.lookup target = some e)
    (hinc : e.state ≠ .incomplete)
    (hquiet : flags.o = false → lla.equal e.macAddress = false → e.state = .reachable → e.Idle)
    (hout : c.advertisedKnown now cfg interface src target flags lla e.stopProbeTimer.stopDelayTimer = some out) :
    Kept c out.1 ∧ ∀ e', out.1.lookup target = some e' → e'.probeTimer = none := by
  have hsound := h target e he
  -- only the reachable timer may be left
  have hstopped : ∀ kind, kind ≠ .reachable → e.stopProbeTimer.stopDelayTimer.timer kind = none := by
    intro kind hne
    cases kind with
    | reachable => exact absurd rfl hne
    | retrans => exact hsound.timer_eq_none .retrans hinc
    | probe => rfl
    | delay => rfl
  have hput : ∀ e₁ : Entry α, e₁.Sound → e₁.probeTimer = none → e₁.state ≠ .incomplete →
      Kept c (c.insert target e₁) ∧ ∀ e', (c.insert target e₁).lookup target = some e' → e'.probeTimer = none := by
    intro e₁ hsound₁ hprobe hlearnt
    refine ⟨.insert h hsound₁ (.inl hprobe) fun hinc => absurd hinc hlearnt, fun e' he' => ?_⟩
    obtain rfl := Option.some.inj ((AList.lookup_insert _).symm.trans he')
    exact hprobe
  have hsame : e.stopProbeTimer.stopDelayTimer.Sound := by
    refine ⟨fun kind hsome => ?_, fun hinc' => absurd hinc' hinc⟩
    by_cases hkind : kind = .reachable
    · subst hkind
      exact hsound.timers .reachable hsome
    · rw [hstopped kind hkind] at hsome
      cases hsome
  unfold advertisedKnown at hout
  dsimp only at hout
  split_ifs at hout with hother hreach hs hprobe hreach hmac
  · -- another address, and the entry was reachable
    cases hout
    have hother' : flags.o = false ∧ lla.equal e.stopProbeTimer.stopDelayTimer.macAddress = false := by
      simpa using hother
    have hidle := hquiet hother'.1 hother'.2 hreach
    refine hput _ (Entry.Idle.sound (fun kind => ?_) State.noConfusion) rfl State.noConfusion
    rw [Entry.timer_markStale]
    by_cases hkind : kind = .reachable
    · subst hkind
      exact hidle .reachable
    · exact hstopped kind hkind
  · cases hout
    exact hput _ hsame rfl hinc
  · -- what waited for the entry that was probed is sent
    obtain ⟨out₁, out₂, hsend, hstart, rfl⟩ := andThen_eq_some hout
    have hsound₁ : ((e.stopProbeTimer.stopDelayTimer.setMacAddress lla).markReachableAt lla).Sound := by
      refine sound_of_reachable (fun kind hne => ?_) rfl
      rw [Entry.timer_markReachableAt, Entry.timer_setMacAddress]
      exact hstopped kind hne
    have hsent := sendWaiting_of_reachable (by rfl) hsend
    have hlast := restart_kept (sendWaiting_kept h hsound₁ rfl State.noConfusion hsend).1 hsent rfl hstart
    exact hlast
  · obtain ⟨out₁, out₂, hfirst, hstart, rfl⟩ := andThen_eq_some hout
    cases hfirst
    have hsound₁ : (e.stopProbeTimer.stopDelayTimer.setMacAddress lla).Sound := by
      refine sound_of_reachable (fun kind hne => ?_) hreach
      rw [Entry.timer_setMacAddress]
      exact hstopped kind hne
    exact restart_kept (hput _ hsound₁ rfl hinc).1 (AList.lookup_insert _) hreach hstart
  · obtain ⟨out₁, out₂, hfirst, hstart, rfl⟩ := andThen_eq_some hout
    cases hfirst
    have hsound₁ : ((e.stopProbeTimer.stopDelayTimer.setMacAddress lla).markReachableAt lla).Sound := by
      refine sound_of_reachable (fun kind hne => ?_) rfl
      rw [Entry.timer_markReachableAt, Entry.timer_setMacAddress]
      exact hstopped kind hne
    exact restart_kept (hput _ hsound₁ rfl State.noConfusion).1 (AList.lookup_insert _) rfl hstart
  · -- the address was just set
    have hequal : lla.equal lla = true := Address.equal_self lla
    rw [Entry.setMacAddress] at hmac
    rw [hequal] at hmac
    cases hmac
  · cases hout
    refine hput _ ⟨fun kind hsome => ?_, fun hinc' => absurd hinc' hinc⟩ rfl hinc
    rw [Entry.timer_setRouter, Entry.timer_setMacAddress] at hsome
    exact hsame.timers kind hsome

/-- The entry that a message is about was not probed after it. -/
theorem handleNA_kept {flags : Flags} {lla : Option Address} (h : Sound c)
    (hquiet : ∀ e mac, c.lookup target = some e → lla = some mac → flags.o = false → mac.equal e.macAddress = false →
      e.state = .reachable → e.Idle)
    (hout : c.handleNA now cfg interface src target flags lla = some out) :
    Kept c out.1 ∧ (lla.isSome → ∀ e', out.1.lookup target = some e' → e'.probeTimer = none) := by
  unfold handleNA at hout
  cases he : c.lookup target with
  | none =>
    simp only [he] at hout
    cases hout
    refine ⟨.refl h, fun _ e' he' => ?_⟩
    rw [he] at he'
    cases he'
  | some e =>
    cases lla with
    | none =>
      simp only [he] at hout
      cases hout
      exact ⟨.refl h, fun hsome => by cases hsome⟩
    | some mac =>
      simp only [he] at hout
      split_ifs at hout with hinc
      · obtain ⟨hkept, hprobe⟩ := advertisedIncomplete_kept h he hinc hout
        exact ⟨hkept, fun _ => hprobe⟩
      · obtain ⟨hkept, hprobe⟩ := advertisedKnown_kept h he hinc (hquiet e mac he rfl) hout
        exact ⟨hkept, fun _ => hprobe⟩

end Ns3.NdiscCache
