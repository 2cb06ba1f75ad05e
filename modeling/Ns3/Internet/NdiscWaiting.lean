import Ns3.Internet.NdiscContract

/-!
# What waits for a neighbour

The packets that wait in an entry of the neighbour cache while its address is asked for or probed. They should be few,
and be sent when the address is known; but a message can mark an entry without a look at what waits there.

* `Entry.Waits` — the invariant: few packets wait, and only while the entry is not resolved.
* `Entry.Fate` — what becomes of those that wait: they go on waiting, are all sent once, or are dropped with the entry.
* `Touched` — what a handler does to one entry; `send_touched`, `receiveLLA_touched`, `handleNA_touched`,
  `timeout_touched` for each.
* `waits_of_run` — in a run whose events meet the condition.
-/

namespace Ns3.NdiscCache

open Lib

universe u

variable {α : Type u} {cfg : Config α} {now : ℤ} {interface : List InterfaceAddress} {p : α} {qlen : ℕ}
  {dst dest src target destination : Ipv6Address} {mac lla : Address} {kind : TimerKind} {e e' : Entry α}
  {c c' : NdiscCache α} {sent : List (Action α)} {out : NdiscCache α × List (Action α)} {fresh : α → Prop}

/-! ### Entries -/

/-- Nothing is sent by the device that is not a message about neighbours. -/
def NoSend (sent : List (Action α)) : Prop := ∀ p mac, Action.send p mac ∉ sent

namespace Entry

/-- The address is asked for or probed. -/
def Unresolved (e : Entry α) : Prop := e.state = .incomplete ∨ e.state = .probe

/-- Few packets wait, and only while the entry is not resolved; and none for a multicast address. -/
structure Waits (qlen : ℕ) (dst : Ipv6Address) (e : Entry α) : Prop where
  le : e.waiting.length ≤ max 1 qlen
  unresolved : e.waiting ≠ [] → e.Unresolved
  unicast : e.waiting ≠ [] → dst.isMulticast = false

/-- What becomes of the packets that wait, while a packet of `fresh` may be queued. -/
inductive Fate (fresh : α → Prop) (e : Entry α) (sent : List (Action α)) : Option (Entry α) → Prop where
  /-- They are dropped with the entry. -/
  | removed (hsent : NoSend sent) : Fate fresh e sent none
  /-- They go on waiting, perhaps with one more behind them, and no other address is known. -/
  | waits {next : Entry α} (hstate : next.Unresolved) (hmac : next.macAddress.equal e.macAddress = true)
      (hwaiting : next.waiting = e.waiting ∨ ∃ p, fresh p ∧ next.waiting = e.waiting ++ [p]) (hsent : NoSend sent) :
      Fate fresh e sent (some next)
  /-- The address is known; they are sent there in their order, and wait no longer. -/
  | released {next : Entry α} (hstate : ¬ next.Unresolved) (hwaiting : next.waiting = [])
      (hsent : sent = e.waiting.map fun p => .send p next.macAddress) : Fate fresh e sent (some next)

/-- Entries that differ in their timers and flags. -/
structure Alike (e e' : Entry α) : Prop where
  state : e'.state = e.state
  waiting : e'.waiting = e.waiting
  mac : e'.macAddress = e.macAddress

theorem Waits.alike (h : e.Waits qlen dst) (halike : e.Alike e') : e'.Waits qlen dst := by
  obtain ⟨hstate, hwaiting, -⟩ := halike
  refine ⟨hwaiting ▸ h.le, fun hne => ?_, fun hne => h.unicast (hwaiting ▸ hne)⟩
  rw [Unresolved, hstate]
  exact h.unresolved (hwaiting ▸ hne)

theorem Waits.of_waiting (hwaiting : e.waiting = []) : e.Waits qlen dst :=
  ⟨by rw [hwaiting]; exact Nat.zero_le _, fun hne => absurd hwaiting hne, fun hne => absurd hwaiting hne⟩

theorem Waits.waiting_eq_nil (h : e.Waits qlen dst) (hresolved : ¬ e.Unresolved) : e.waiting = [] :=
  Decidable.of_not_not fun hne => hresolved (h.unresolved hne)

theorem Fate.alike {e₁ : Entry α} (h : e.Fate fresh sent (some e₁)) (halike : e₁.Alike e') :
    e.Fate fresh sent (some e') := by
  obtain ⟨hstate, hwaiting, hmac⟩ := halike
  have hiff : e'.Unresolved ↔ e₁.Unresolved := by rw [Unresolved, Unresolved, hstate]
  cases h with
  | waits hstate' hmac' hwaiting' hsent =>
    exact .waits (hiff.mpr hstate') (hmac.symm ▸ hmac') (hwaiting.symm ▸ hwaiting') hsent
  | released hstate' hwaiting' hsent =>
    exact .released (fun h => hstate' (hiff.mp h)) (hwaiting.trans hwaiting') (hmac.symm ▸ hsent)

end Entry

/-- All entries wait as they should. -/
def Waits (qlen : ℕ) (c : NdiscCache α) : Prop := ∀ dst e, c.lookup dst = some e → e.Waits qlen dst

/-! ### One entry -/

/-- What a handler does that is about the entry of `dst`. -/
structure Touched (fresh : α → Prop) (qlen : ℕ) (dst : Ipv6Address) (c : NdiscCache α)
    (out : NdiscCache α × List (Action α)) : Prop where
  others : ∀ d, d ≠ dst → out.1.lookup d = c.lookup d
  waits : ∀ e, out.1.lookup dst = some e → e.Waits qlen dst
  fate : ∀ e, c.lookup dst = some e → e.waiting ≠ [] → e.Fate fresh out.2 (out.1.lookup dst)

namespace Touched

theorem keep (h : Waits qlen c) (hsent : ∀ e, c.lookup dst = some e → e.waiting ≠ [] → NoSend sent) :
    Touched fresh qlen dst c (c, sent) := by
  refine ⟨fun _ _ => rfl, h dst, fun e he hne => ?_⟩
  rw [he]
  exact .waits ((h dst e he).unresolved hne) (Address.equal_self _) (.inl rfl) (hsent e he hne)

theorem of_insert (hwaits : e'.Waits qlen dst)
    (hfate : ∀ e, c.lookup dst = some e → e.waiting ≠ [] → e.Fate fresh sent (some e')) :
    Touched fresh qlen dst c (c.insert dst e', sent) := by
  refine ⟨fun d hd => AList.lookup_insert_ne hd, fun e he => ?_, fun e he hne => ?_⟩
  · obtain rfl := Option.some.inj ((AList.lookup_insert c).symm.trans he)
    exact hwaits
  · rw [AList.lookup_insert]
    exact hfate e he hne

/-- The entry is new. -/
theorem insert_new (he : c.lookup dst = none) (hwaits : e'.Waits qlen dst) :
    Touched fresh qlen dst c (c.insert dst e', sent) :=
  of_insert hwaits fun e he' => by
    rw [he] at he'
    cases he'

theorem insert (he : c.lookup dst = some e) (hwaits : e'.Waits qlen dst)
    (hfate : e.waiting ≠ [] → e.Fate fresh sent (some e')) : Touched fresh qlen dst c (c.insert dst e', sent) :=
  of_insert hwaits fun e₁ he₁ hne => by
    obtain rfl := Option.some.inj (he.symm.trans he₁)
    exact hfate hne

theorem insert_alike (h : Waits qlen c) (he : c.lookup dst = some e) (halike : e.Alike e') (hsent : NoSend sent) :
    Touched fresh qlen dst c (c.insert dst e', sent) := by
  refine insert he ((h dst e he).alike halike) fun hne => ?_
  exact Entry.Fate.alike (.waits ((h dst e he).unresolved hne) (Address.equal_self _) (.inl rfl) hsent) halike

theorem insert_nil (he : c.lookup dst = some e) (hnone : e.waiting = []) (hwaiting : e'.waiting = []) :
    Touched fresh qlen dst c (c.insert dst e', sent) :=
  insert he (.of_waiting hwaiting) fun hne => absurd hnone hne

theorem erase (hsent : NoSend sent) : Touched fresh qlen dst c (c.erase dst, sent) := by
  refine ⟨fun d hd => AList.lookup_erase_ne hd, fun e he => ?_, fun e he hne => ?_⟩
  · exact absurd rfl (Store.lookup_erase_some he).1
  · rw [AList.lookup_erase]
    exact .removed hsent

theorem modify {f : Entry α → Option (Entry α)} {out₁ : NdiscCache α × List (Action α)}
    (h : Touched fresh qlen dst c out₁) (hf : ∀ e e', f e = some e' → e.Alike e')
    {out₂ : NdiscCache α × List (Action α)} (hout : out₁.1.modify dst f = some out₂) :
    Touched fresh qlen dst c (out₂.1, out₁.2 ++ out₂.2) := by
  obtain ⟨e, e', he, hfe, rfl⟩ := modify_eq_some hout
  have halike := hf e e' hfe
  rw [List.append_nil]
  refine ⟨fun d hd => (AList.lookup_insert_ne hd).trans (h.others d hd), fun e₁ he₁ => ?_, fun e₁ he₁ hne => ?_⟩
  · obtain rfl := Option.some.inj ((AList.lookup_insert _).symm.trans he₁)
    exact (h.waits e he).alike halike
  · have hfate := h.fate e₁ he₁ hne
    rw [he] at hfate
    rw [AList.lookup_insert]
    exact hfate.alike halike

theorem cache (h : Touched fresh qlen dst c out) (hc : Waits qlen c) : Waits qlen out.1 := by
  intro d e he
  by_cases hd : d = dst
  · subst hd
    exact h.waits e he
  · exact hc d e ((h.others d hd).symm.trans he)

end Touched

/-! ### Sending -/

/-- The list has room for one more. -/
def Room (qlen : ℕ) (c : NdiscCache α) (dst : Ipv6Address) : Prop :=
  ∀ e ∈ c.lookup dst, e.Unresolved → e.waiting.length < max 1 qlen

theorem noSend_nil : NoSend ([] : List (Action α)) := fun _ _ => List.not_mem_nil

theorem alike_startRetransmitTimer (h : e.startRetransmitTimer now = some e') : e.Alike e' := by
  obtain ⟨t, -, rfl⟩ := Option.map_eq_some_iff.mp h
  exact ⟨rfl, rfl, rfl⟩

theorem contact_touched (hnone : c.lookup dst = none) (hunicast : dst.isMulticast = false)
    (hout : c.contact now interface p dst = some out) : Touched fresh qlen dst c out := by
  simp only [contact] at hout
  split_ifs at hout
  · cases hout
    refine ⟨fun d hd => ?_, fun e he => ?_, fun e he => ?_⟩
    · rw [remove, AList.lookup_erase_ne hd, AList.lookup_insert_ne hd]
    · rw [remove, AList.lookup_erase] at he
      cases he
    · rw [hnone] at he
      cases he
  all_goals
    split at hout
    · rename_i hstart
      cases hout
      have hwaits : (((Entry.new .incomplete).markIncomplete p).setRouter false : Entry α).Waits qlen dst :=
        ⟨le_max_left 1 qlen, fun _ => .inl rfl, fun _ => hunicast⟩
      exact .insert_new hnone (hwaits.alike (alike_startRetransmitTimer hstart))
    · cases hout

theorem lookupAndSend_touched (h : Waits qlen c) (hfresh : fresh p) (hroom : Room qlen c dst)
    (hunicast : dst.isMulticast = false) (hout : c.lookupAndSend now interface p dst = some out) :
    Touched fresh qlen dst c out := by
  unfold lookupAndSend at hout
  cases he : c.lookup dst with
  | none =>
    simp only [he] at hout
    exact contact_touched he hunicast hout
  | some e =>
    have hwaits := h dst e he
    have hsend : ¬ e.Unresolved → Touched fresh qlen dst c (c, [.send p e.macAddress]) := fun hresolved =>
      .keep h fun e₁ he₁ hne => by
        obtain rfl := Option.some.inj (he.symm.trans he₁)
        exact absurd (hwaits.waiting_eq_nil hresolved) hne
    have hqueue : e.Unresolved → c.put dst (e.addWaitingPacket p) = some out → Touched fresh qlen dst c out := by
      intro hunresolved hput
      cases hput
      refine .insert he ⟨?_, fun _ => hunresolved, fun _ => hunicast⟩ fun hne => ?_
      · have hlt := hroom e he hunresolved
        change (e.waiting ++ [p]).length ≤ _
        rw [List.length_append, List.length_singleton]
        exact hlt
      · exact .waits hunresolved (Address.equal_self _) (.inr ⟨p, hfresh, rfl⟩) noSend_nil
    simp only [he] at hout
    cases hstate : e.state with
    | reachable =>
      simp only [hstate] at hout
      cases hout
      exact hsend (by simp [Entry.Unresolved, hstate])
    | delay =>
      simp only [hstate] at hout
      cases hout
      exact hsend (by simp [Entry.Unresolved, hstate])
    | stale =>
      have hresolved : ¬ e.Unresolved := by simp [Entry.Unresolved, hstate]
      simp only [hstate] at hout
      cases hstart : e.startDelayTimer now with
      | none => simp only [hstart, reduceCtorEq] at hout
      | some e' =>
        simp only [hstart] at hout
        cases hout
        obtain ⟨t, -, rfl⟩ := Option.map_eq_some_iff.mp hstart
        exact .insert_nil he (hwaits.waiting_eq_nil hresolved) (hwaits.waiting_eq_nil hresolved)
    | incomplete =>
      simp only [hstate] at hout
      exact hqueue (.inl hstate) hout
    | probe =>
      simp only [hstate] at hout
      exact hqueue (.inr hstate) hout

theorem send_touched (h : Waits qlen c) (hfresh : fresh p) (hroom : Room qlen c dst)
    (hout : c.send now cfg interface p dst = some out) : Touched fresh qlen dst c out := by
  unfold send at hout
  split_ifs at hout with hown hmulticast
  · cases hout
    exact .keep h fun _ _ _ p mac => by simp
  · cases hout
    refine .keep h fun e he hne => ?_
    rw [(h dst e he).unicast hne] at hmulticast
    cases hmulticast
  · exact lookupAndSend_touched h hfresh hroom (Bool.eq_false_iff.mpr hmulticast) hout

/-- The packets of an entry are sent to its address, unless there is none. -/
def Direct (interface : List InterfaceAddress) (dst src : Ipv6Address) : Prop :=
  src = dst ∧ ∀ i ∈ interface, dst ≠ i.address
deriving Decidable

theorem sendAll_eq (he : c.lookup dst = some e) (hreach : e.state = .reachable) (hunicast : dst.isMulticast = false)
    (hown : ∀ i ∈ interface, dst ≠ i.address) (waiting : List α) :
    sendAll now cfg interface dst waiting c = some (c, waiting.map fun p => .send p e.macAddress) := by
  have hother : (interface.any fun i => decide (dst = i.address)) = false :=
    List.any_eq_false.mpr fun i hi => by simpa using hown i hi
  induction waiting with
  | nil => rfl
  | cons p waiting ih =>
    have hsend : c.send now cfg interface p dst = some (c, [.send p e.macAddress]) := by
      simp [send, hother, hunicast, lookupAndSend, he, hreach]
    rw [sendAll, hsend]
    change ((sendAll now cfg interface dst waiting c).map fun out => (out.1, [.send p e.macAddress] ++ out.2)) = _
    rw [ih]
    rfl

/-- An entry that was marked reachable is released. -/
theorem sendWaiting_touched (h : Waits qlen c) (he : c.lookup dst = some e) (hwaiting : e'.waiting = e.waiting)
    (hreach : e'.state = .reachable) (hdirect : e.waiting ≠ [] → Direct interface dst src)
    (hout : c.sendWaiting now cfg interface dst src e' = some out) : Touched fresh qlen dst c out := by
  have hlookup : (c.insert dst e').lookup dst = some e' := AList.lookup_insert c
  have hall : sendAll now cfg interface src e'.waiting (c.insert dst e') =
      some (c.insert dst e', e'.waiting.map fun p => .send p e'.macAddress) := by
    by_cases hne : e.waiting = []
    · rw [hwaiting, hne]
      rfl
    · obtain ⟨rfl, hown⟩ := hdirect hne
      exact sendAll_eq hlookup hreach ((h _ e he).unicast hne) hown _
  unfold sendWaiting at hout
  change Outcome.andThen ((sendAll now cfg interface src e'.waiting (c.insert dst e')).map
    fun out => (out.1, [] ++ out.2)) _ = _ at hout
  rw [hall] at hout
  simp only [Option.map_some, Outcome.andThen, NdiscCache.modify, hlookup, Option.bind_some, put, List.nil_append,
    List.append_nil] at hout
  cases hout
  refine ⟨fun d hd => (AList.lookup_insert_ne hd).trans (AList.lookup_insert_ne hd), fun e₁ he₁ => ?_,
    fun e₁ he₁ hne => ?_⟩
  · obtain rfl := Option.some.inj ((AList.lookup_insert _).symm.trans he₁)
    exact .of_waiting rfl
  · obtain rfl := Option.some.inj (he.symm.trans he₁)
    rw [AList.lookup_insert]
    refine .released (by simp [Entry.Unresolved, Entry.clearWaitingPacket, hreach]) rfl ?_
    rw [hwaiting]
    rfl

/-! ### Messages -/

/-- No packet waits for the address, unless it is known by the link-layer address. -/
def Familiar (c : NdiscCache α) (dst : Ipv6Address) (lla : Address) : Prop :=
  ∀ e ∈ c.lookup dst, e.waiting ≠ [] → e.macAddress.equal lla = true
deriving Decidable

/-- `HandleRedirection`, with a target link-layer address. -/
def handleRedirection (target destination : Ipv6Address) (lla : Address) (c : NdiscCache α) : NdiscCache α :=
  match c.lookup target with
  | none => c.insert target (((Entry.new .stale).setRouter (target ≠ destination)).setMacAddress lla).markStale
  | some e =>
    if e.state = .incomplete ∨ !e.macAddress.equal lla then
      if !e.macAddress.equal lla then c.insert target (e.setMacAddress lla).markStale else c
    else c

/-- An entry that is marked stale with another address has nothing waiting. -/
theorem stale_touched (hfamiliar : Familiar c dst lla) (he : c.lookup dst = some e)
    (hmac : e.macAddress.equal lla = false) (hwaiting : e'.waiting = e.waiting) :
    Touched fresh qlen dst c (c.insert dst e', sent) := by
  have hnone : e.waiting = [] := Decidable.of_not_not fun hne => by
    rw [hfamiliar e he hne] at hmac
    cases hmac
  exact .insert_nil he hnone (hwaiting.trans hnone)

theorem learn_touched (h : Waits qlen c) (hfamiliar : Familiar c src lla) :
    Touched fresh qlen src c (c.learn lla src, []) := by
  unfold learn
  cases he : c.lookup src with
  | none => exact .insert_new he (.of_waiting rfl)
  | some e =>
    cases hmac : e.macAddress.equal lla with
    | false =>
      simp only [hmac]
      exact stale_touched hfamiliar he hmac (by rfl)
    | true =>
      simp only [hmac]
      exact .keep h fun _ _ _ => noSend_nil

theorem redirect_touched (h : Waits qlen c) (hfamiliar : Familiar c target lla) :
    Touched fresh qlen target c (c.handleRedirection target destination lla, []) := by
  unfold handleRedirection
  cases he : c.lookup target with
  | none => exact .insert_new he (.of_waiting rfl)
  | some e =>
    cases hmac : e.macAddress.equal lla with
    | false =>
      simp only [hmac, Bool.not_false, or_true, if_true]
      exact stale_touched hfamiliar he hmac (by rfl)
    | true =>
      simp only [hmac, Bool.not_true, Bool.false_eq_true, or_false, if_false, ite_self]
      exact .keep h fun _ _ _ => noSend_nil

theorem resolved_touched (h : Waits qlen c) (he : c.lookup dst = some e) (hwaiting : e'.waiting = e.waiting)
    (hdirect : e.waiting ≠ [] → Direct interface dst src)
    (hout : c.resolved now cfg interface dst src mac e' = some out) : Touched fresh qlen dst c out := by
  unfold resolved at hout
  cases hstart : (e'.markReachableAt mac).stopReachableTimer.startReachableTimer now with
  | none => simp only [hstart, reduceCtorEq] at hout
  | some e₁ =>
    simp only [hstart] at hout
    obtain ⟨t, -, rfl⟩ := Option.map_eq_some_iff.mp hstart
    exact sendWaiting_touched h he (by exact hwaiting) (by rfl) hdirect hout

theorem receiveLLA_touched (h : Waits qlen c)
    (hclear : ∀ e ∈ c.lookup src, e.waiting ≠ [] → e.state = .incomplete ∧ Direct interface src src)
    (hout : c.receiveLLA now cfg interface lla src = some out) : Touched fresh qlen src c out := by
  unfold receiveLLA at hout
  cases he : c.lookup src with
  | none =>
    simp only [he] at hout
    split at hout
    · cases hout
    · rename_i hstart
      cases hout
      obtain ⟨t, -, rfl⟩ := Option.map_eq_some_iff.mp hstart
      exact .insert_new he (.of_waiting rfl)
  | some e =>
    have hnil : e.state ≠ .incomplete → e.waiting = [] := fun hstate =>
      Decidable.of_not_not fun hne => hstate (hclear e he hne).1
    simp only [he] at hout
    split_ifs at hout with hstate hmac hreach
    · exact resolved_touched h he (by rfl) (fun hne => (hclear e he hne).2) hout
    · cases hout
      exact .insert_nil he (hnil hstate) (hnil hstate)
    · split at hout
      · cases hout
      · rename_i hstart
        cases hout
        obtain ⟨t, -, rfl⟩ := Option.map_eq_some_iff.mp hstart
        exact .insert_nil he (hnil hstate) (hnil hstate)
    · cases hout
      exact .keep h fun _ _ _ => noSend_nil

/-- An advertisement for an entry with packets waiting: it is solicited and the neighbour's own; or the address is known
and it neither changes nor confirms it. -/
def Advertises (interface : List InterfaceAddress) (src target : Ipv6Address) (flags : Flags) (lla : Address)
    (e : Entry α) : Prop :=
  flags.s = true ∧ Direct interface target src ∨
    e.state ≠ .incomplete ∧ (flags.o = false ∧ lla.equal e.macAddress = false ∨
      flags.s = false ∧ lla.equal e.macAddress = true)
deriving Decidable

theorem alike_setRouter {router : Bool} (h : some (e.setRouter router) = some e') : e.Alike e' := by
  cases h
  exact ⟨rfl, rfl, rfl⟩

theorem alike_startReachableTimer {router : Bool}
    (h : (e.stopReachableTimer.startReachableTimer now).map (Entry.setRouter router) = some e') : e.Alike e' := by
  obtain ⟨e₁, hstart, rfl⟩ := Option.map_eq_some_iff.mp h
  obtain ⟨t, -, rfl⟩ := Option.map_eq_some_iff.mp hstart
  exact ⟨rfl, rfl, rfl⟩

theorem advertisedIncomplete_touched {flags : Flags} (h : Waits qlen c) (he : c.lookup target = some e)
    (hstate : e.state = .incomplete) (hclear : e.waiting ≠ [] → Advertises interface src target flags lla e)
    (hout : c.advertisedIncomplete now cfg interface src target flags lla e = some out) :
    Touched fresh qlen target c out := by
  have hdirect : e.waiting ≠ [] → flags.s = true ∧ Direct interface target src := fun hne =>
    (hclear hne).resolve_right fun h => h.1 hstate
  obtain ⟨out₁, out₂, hfirst, hrest, rfl⟩ := andThen_eq_some hout
  have htouched : Touched fresh qlen target c out₁ := by
    split_ifs at hfirst with hs
    · exact resolved_touched h he (by rfl) (fun hne => (hdirect hne).2) hfirst
    · have hnone : e.waiting = [] := Decidable.of_not_not fun hne => hs (hdirect hne).1
      cases hfirst
      exact .insert_nil he hnone hnone
  split_ifs at hrest
  · exact htouched.modify (fun e e' => alike_setRouter) hrest
  · cases hrest
    rw [List.append_nil]
    exact htouched

theorem advertisedKnown_touched {flags : Flags} (h : Waits qlen c) (he : c.lookup target = some e)
    (hstate : e.state ≠ .incomplete) (hclear : e.waiting ≠ [] → Advertises interface src target flags lla e)
    (hout : c.advertisedKnown now cfg interface src target flags lla e.stopProbeTimer.stopDelayTimer = some out) :
    Touched fresh qlen target c out := by
  have hprobe : e.state ≠ .probe → e.waiting = [] := fun hstate' =>
    (h target e he).waiting_eq_nil fun hunresolved => hunresolved.elim hstate hstate'
  have hother : e.stopProbeTimer.stopDelayTimer.macAddress = e.macAddress := rfl
  simp only [advertisedKnown, hother] at hout
  by_cases hkeep : (!flags.o && !lla.equal e.macAddress) = true
  · rw [if_pos hkeep] at hout
    cases hout
    split_ifs with hreach
    · have hnone : e.waiting = [] := hprobe fun hprobe => by
        rw [show e.state = .reachable from hreach] at hprobe
        cases hprobe
      exact .insert_nil he hnone hnone
    · exact .insert_alike h he ⟨rfl, rfl, rfl⟩ noSend_nil
  rw [if_neg hkeep] at hout
  by_cases hs : flags.s = true
  · rw [if_pos hs] at hout
    obtain ⟨out₁, out₂, hfirst, hrest, rfl⟩ := andThen_eq_some hout
    refine Touched.modify ?_ (fun e e' => alike_startReachableTimer) hrest
    split_ifs at hfirst with hprobing
    · refine sendWaiting_touched h he (by rfl) (by rfl) (fun hne => ?_) hfirst
      rcases hclear hne with hdirect | ⟨-, hnew | hsame⟩
      · exact hdirect.2
      · exact absurd (by rw [hnew.1, hnew.2]; rfl) hkeep
      · exact absurd hs (by rw [hsame.1]; decide)
    all_goals
      have hnone : e.waiting = [] := hprobe hprobing
      cases hfirst
      exact .insert_nil he hnone hnone
  · have hself : (!lla.equal (e.stopProbeTimer.stopDelayTimer.setMacAddress lla).macAddress) = false := by
      change (!lla.equal lla) = false
      rw [Address.equal_self]
      rfl
    rw [if_neg hs, hself, if_neg Bool.false_ne_true] at hout
    cases hout
    by_cases hne : e.waiting = []
    · exact .insert_nil he hne hne
    · have hsame : lla.equal e.macAddress = true := by
        rcases hclear hne with hdirect | ⟨-, hnew | hsame⟩
        · exact absurd hdirect.1 hs
        · exact absurd (by rw [hnew.1, hnew.2]; rfl) hkeep
        · exact hsame.2
      have hunresolved := (h target e he).unresolved hne
      refine .insert he ⟨(h target e he).le, fun _ => hunresolved, (h target e he).unicast⟩ fun _ => ?_
      exact .waits hunresolved hsame (.inl rfl) noSend_nil

theorem handleNA_touched {flags : Flags} {mac : Option Address} (h : Waits qlen c)
    (hclear : ∀ lla ∈ mac, ∀ e ∈ c.lookup target, e.waiting ≠ [] → Advertises interface src target flags lla e)
    (hout : c.handleNA now cfg interface src target flags mac = some out) : Touched fresh qlen target c out := by
  unfold handleNA at hout
  split at hout
  · rename_i e lla he
    split_ifs at hout with hstate
    · exact advertisedIncomplete_touched h he hstate (hclear lla rfl e he) hout
    · exact advertisedKnown_touched h he hstate (hclear lla rfl e he) hout
  · cases hout
    exact .keep h fun _ _ _ => noSend_nil

/-! ### Timers -/

theorem timeout_touched (h : Waits qlen c) (he : c.lookup dst = some e) (hclear : kind = .reachable → e.waiting = [])
    (hout : c.timeout now interface kind dst (e.fire kind) = some out) : Touched fresh qlen dst c out := by
  have hfire : e.Alike (e.fire kind) := by cases kind <;> exact ⟨rfl, rfl, rfl⟩
  have hprobing : ∀ {e₁ e₂ : Entry α} {sent : List (Action α)}, e₁.waiting = e.waiting → e₁.macAddress = e.macAddress →
      (e.waiting ≠ [] → e₁.Unresolved) → e₁.Alike e₂ → NoSend sent →
      Touched fresh qlen dst c (c.insert dst e₂, sent) := by
    intro e₁ e₂ sent hwaiting hmac hstate halike hsent
    have hwaits : e₁.Waits qlen dst := ⟨hwaiting ▸ (h dst e he).le, fun hne => hstate (hwaiting ▸ hne),
      fun hne => (h dst e he).unicast (hwaiting ▸ hne)⟩
    refine .insert he (hwaits.alike halike) fun hne => ?_
    exact Entry.Fate.alike (.waits (hstate hne) (hmac ▸ Address.equal_self _) (.inl hwaiting) hsent) halike
  have hprobe : ∀ e₁ : Entry α, e₁.waiting = e.waiting → e₁.macAddress = e.macAddress →
      (e.waiting ≠ [] → e₁.Unresolved) → c.probe now dst e₁ = some out → Touched fresh qlen dst c out := by
    intro e₁ hwaiting hmac hstate hout
    unfold probe at hout
    split at hout
    · cases hout
    · rename_i hstart
      cases hout
      obtain ⟨t, -, rfl⟩ := Option.map_eq_some_iff.mp hstart
      exact hprobing hwaiting hmac hstate ⟨rfl, rfl, rfl⟩ fun _ _ => by simp
  have hretransmit : ∀ addr, c.retransmit now dst addr (e.fire kind) = some out → Touched fresh qlen dst c out := by
    intro addr hout
    unfold retransmit at hout
    split_ifs at hout
    · split at hout
      · cases hout
      · rename_i hstart
        cases hout
        obtain ⟨hstate, hwaiting, hmac⟩ := alike_startRetransmitTimer hstart
        refine .insert_alike h he ⟨?_, ?_, ?_⟩ fun _ _ => by simp
        · exact hstate.trans hfire.state
        · exact hwaiting.trans hfire.waiting
        · exact hmac.trans hfire.mac
    · split at hout
      · cases hout
      · cases hout
        exact .erase fun _ _ => by simp
  have herase : some (c.remove dst, []) = some out → Touched fresh qlen dst c out := fun hout => by
    cases hout
    exact .erase noSend_nil
  cases kind with
  | reachable =>
    cases hout
    exact .insert_nil he (hclear rfl) (hclear rfl)
  | retrans =>
    simp only [timeout] at hout
    split at hout
    · cases hout
    · exact hretransmit _ hout
    · exact hretransmit _ hout
    · exact herase hout
  | delay =>
    simp only [timeout] at hout
    split at hout
    · cases hout
    · exact hprobe _ (by rfl) (by rfl) (fun _ => .inr rfl) hout
    · cases hout
      exact hprobing (show e.markProbe.waiting = e.waiting from rfl) rfl (fun _ => .inr rfl) ⟨rfl, rfl, rfl⟩ noSend_nil
    · exact herase hout
  | probe =>
    simp only [timeout] at hout
    split_ifs at hout
    · split at hout
      · cases hout
      · exact hprobe (e.fire .probe) rfl rfl (fun hne => (h dst e he).unresolved hne) hout
      · cases hout
        exact .insert_alike h he hfire noSend_nil
      · exact herase hout
    · exact herase hout

/-! ### Runs -/

/-- What happens to a cache, redirections included. -/
inductive Happening (α : Type u) where
  | event (event : Event α)
  /-- A redirection arrives, with a target link-layer address. -/
  | redirect (target destination : Ipv6Address) (lla : Address)

/-- The handler. -/
def Timed.happen (cfg : Config α) (s : Timed α) : Happening α → Outcome α
  | .event event => s.handle cfg event
  | .redirect target destination lla => some (s.cache.handleRedirection target destination lla, [])

/-- The machine with redirections. -/
def waitingMachine (cfg : Config α) : Machine (Timed α) (Happening α) where
  enabled s
    | .event event => s.Enabled event
    | .redirect .. => True
  exec s x := (s.happen cfg x).map fun out =>
    match x with
    | .event event => s.after out.1 event
    | .redirect .. => { s with cache := out.1 }

/-- The entry that an event is about. A solicitation from `::` is about none. -/
def Happening.Concerns (dst : Ipv6Address) : Happening α → Prop
  | .event (.send _ dest) => dest = dst
  | .event (.rs src _) | .event (.ra src _) => src = dst
  | .event (.ns _ src _ _) => src ≠ .zero ∧ src = dst
  | .event (.na _ target _ _) | .redirect target _ _ => target = dst
  | .event (.timeout _ dst') => dst' = dst
  | .event (.advance _) | .event (.setAddresses _) => False
  | .event .flush => True

/-- There is room for a packet that is queued; a message that makes an entry stale comes when nothing waits there; and
an advertisement resolves the neighbour who sends it. -/
def Timed.Clear (qlen : ℕ) (s : Timed α) : Happening α → Prop
  | .event (.send _ dest) => Room qlen s.cache dest
  | .event (.rs src lla) => src ≠ .zero → ∀ a ∈ lla, Familiar s.cache src a
  | .event (.ns uid src target lla) =>
    (solicited s.interface uid target).isSome → src ≠ .zero → ∀ a ∈ lla, Familiar s.cache src a ∧ Room qlen s.cache src
  | .event (.na src target flags lla) =>
    ∀ a ∈ lla, ∀ e ∈ s.cache.lookup target, e.waiting ≠ [] → Advertises s.interface src target flags a e
  | .event (.ra src lla) => ∀ _a ∈ lla, ∀ e ∈ s.cache.lookup src, e.waiting ≠ [] →
    e.state = .incomplete ∧ Direct s.interface src src
  | .event (.timeout .reachable dst) => ∀ e ∈ s.cache.lookup dst, e.waiting = []
  | .redirect target _ lla => Familiar s.cache target lla
  | .event (.timeout .retrans _) | .event (.timeout .probe _) | .event (.timeout .delay _) => True
  | .event (.advance _) | .event (.setAddresses _) | .event .flush => True

/-- A packet that an event has sent: the one that is handed over, or an advertisement. -/
def Happening.Fresh (cfg : Config α) : Happening α → α → Prop
  | .event (.send p _), q => q = p
  | .event (.ns ..), q => ∃ addr dest flags, q = cfg.forgeNA addr dest flags
  | _, _ => False

instance (qlen : ℕ) (c : NdiscCache α) (dst : Ipv6Address) : Decidable (Room qlen c dst) :=
  inferInstanceAs (Decidable (∀ _ ∈ c.lookup dst, (_ ∨ _) → _))

instance (qlen : ℕ) (s : Timed α) : (x : Happening α) → Decidable (s.Clear qlen x)
  | .event (.send _ dest) => inferInstanceAs (Decidable (Room qlen s.cache dest))
  | .event (.rs _ lla) => inferInstanceAs (Decidable (_ → ∀ _ ∈ lla, Familiar _ _ _))
  | .event (.ns _ _ _ lla) => inferInstanceAs (Decidable (_ → _ → ∀ _ ∈ lla, Familiar _ _ _ ∧ Room _ _ _))
  | .event (.na _ target _ lla) =>
    inferInstanceAs (Decidable (∀ _ ∈ lla, ∀ _ ∈ s.cache.lookup target, _ → Advertises _ _ _ _ _ _))
  | .event (.ra src lla) =>
    inferInstanceAs (Decidable (∀ _ ∈ lla, ∀ _ ∈ s.cache.lookup src, _ → _ ∧ Direct _ _ _))
  | .event (.timeout .reachable dst) => inferInstanceAs (Decidable (∀ _ ∈ s.cache.lookup dst, _ = _))
  | .redirect target _ lla => inferInstanceAs (Decidable (Familiar s.cache target lla))
  | .event (.timeout .retrans _) | .event (.timeout .probe _) | .event (.timeout .delay _) => .isTrue trivial
  | .event (.advance _) | .event (.setAddresses _) | .event .flush => .isTrue trivial

/-- What an event does to what waits: it only touches the entry it is about. -/
def Settles (cfg : Config α) (s : Timed α) (x : Happening α) (s' : Timed α) : Prop :=
  ∃ sent, s.happen cfg x = some (s'.cache, sent) ∧
    (∀ dst, ¬ x.Concerns dst → s'.cache.lookup dst = s.cache.lookup dst) ∧
    ∀ dst e, x.Concerns dst → s.cache.lookup dst = some e → e.waiting ≠ [] →
      e.Fate (x.Fresh cfg) sent (s'.cache.lookup dst)

variable {s s' : Timed α} {x : Happening α}

theorem settles_of_touched (h : Waits qlen s.cache) (hconcerns : ∀ d, x.Concerns d ↔ dst = d)
    (hout : s.happen cfg x = some (s'.cache, sent))
    (htouched : Touched (x.Fresh cfg) qlen dst s.cache (s'.cache, sent)) :
    Waits qlen s'.cache ∧ Settles cfg s x s' := by
  refine ⟨htouched.cache h, sent, hout, fun d hd => ?_, fun d e hd he hne => ?_⟩
  · exact htouched.others d fun heq => hd ((hconcerns d).mpr heq.symm)
  · obtain rfl := (hconcerns d).mp hd
    exact htouched.fate e he hne

theorem settles_of_same (h : Waits qlen s.cache) (hout : s.happen cfg x = some (s'.cache, sent))
    (hsame : s'.cache = s.cache) (hnone : (∀ d, ¬ x.Concerns d) ∨ NoSend sent) :
    Waits qlen s'.cache ∧ Settles cfg s x s' := by
  refine ⟨hsame ▸ h, sent, hout, fun d _ => by rw [hsame], fun d e hd he hne => ?_⟩
  rw [hsame]
  exact (Touched.keep h fun _ _ _ => hnone.resolve_left fun h => h d hd).fate e he hne

theorem answer_zero {ifaddr : InterfaceAddress} (hout : c.answer now cfg interface ifaddr .zero target = some out) :
    out.1 = c := by
  have hall : (Ipv6Address.linkMulticast 1).isMulticast = true := by decide
  have hany : Ipv6Address.zero.isAny = true := by decide
  simp only [answer, hany] at hout
  split at hout
  · cases hout
  · simp only [if_true, send, hall] at hout
    split_ifs at hout <;> exact (congrArg Prod.fst (Option.some.inj hout)).symm

/-- An entry that is learnt anew is stale. -/
theorem Room.learn (h : Room qlen c src) : Room qlen (c.learn lla src) src := by
  unfold NdiscCache.learn
  have hstale : ∀ e : Entry α, e.state = .stale → Room qlen (c.insert src e) src := by
    intro e hstate e' he' hunresolved
    obtain rfl := Option.some.inj ((AList.lookup_insert c).symm.trans he')
    simp [Entry.Unresolved, hstate] at hunresolved
  cases he : c.lookup src with
  | none => exact hstale _ rfl
  | some e =>
    cases hmac : e.macAddress.equal lla with
    | false =>
      simp only [hmac]
      exact hstale _ rfl
    | true =>
      simp only [hmac]
      exact h

/-- The answer to another is sent to its source, which is learnt first. -/
theorem solicitation_touched {ifaddr : InterfaceAddress} (h : Waits qlen c) (hsrc : src ≠ .zero)
    (hfresh : ∀ addr dest flags, fresh (cfg.forgeNA addr dest flags)) (hfamiliar : Familiar c src lla)
    (hroom : Room qlen c src) (hout : (c.learn lla src).answer now cfg interface ifaddr src target = some out) :
    Touched fresh qlen src c out := by
  have hlearn : Touched fresh qlen src c (c.learn lla src, []) := learn_touched h hfamiliar
  have hany : src.isAny = false := by simpa [Ipv6Address.isAny] using hsrc
  simp only [answer, hany] at hout
  split at hout
  · cases hout
  · have hsend := send_touched (hlearn.cache h) (hfresh _ _ _) hroom.learn hout
    refine ⟨fun d hd => (hsend.others d hd).trans (hlearn.others d hd), hsend.waits, fun e he hne => ?_⟩
    have hsame : (c.learn lla src).lookup src = some e := by
      simp [learn, he, hfamiliar e he hne]
    exact hsend.fate e hsame hne

theorem rs_settles {lla : Option Address} (h : Waits qlen s.cache) (hclear : s.Clear qlen (.event (.rs src lla)))
    (hout : s.happen cfg (.event (.rs src lla)) = some (s'.cache, sent)) :
    Waits qlen s'.cache ∧ Settles cfg s (.event (.rs src lla)) s' := by
  refine settles_of_touched h (fun _ => Iff.rfl) hout ?_
  simp only [Timed.happen, Timed.handle, handleRS] at hout
  split_ifs at hout with hsrc
  · rw [← Option.some.inj hout]
    exact .keep h fun _ _ _ => noSend_nil
  · cases lla with
    | none =>
      rw [← Option.some.inj hout]
      exact .keep h fun _ _ _ => noSend_nil
    | some lla =>
      rw [← Option.some.inj hout]
      exact learn_touched h (hclear hsrc lla rfl)

theorem ns_settles {uid : ℕ} {lla : Option Address} (h : Waits qlen s.cache)
    (hclear : s.Clear qlen (.event (.ns uid src target lla)))
    (hout : s.happen cfg (.event (.ns uid src target lla)) = some (s'.cache, sent)) :
    Waits qlen s'.cache ∧ Settles cfg s (.event (.ns uid src target lla)) s' := by
  have hhandle := hout
  simp only [Timed.happen, Timed.handle, handleNS] at hhandle
  cases hsol : solicited s.interface uid target with
  | none =>
    simp only [hsol] at hhandle
    obtain ⟨hsame, rfl⟩ := Prod.mk.inj (Option.some.inj hhandle)
    exact settles_of_same h hout hsame.symm (.inr noSend_nil)
  | some ifaddr =>
    simp only [hsol] at hhandle
    by_cases hsrc : src = .zero
    · subst hsrc
      rw [if_pos rfl] at hhandle
      exact settles_of_same h hout (answer_zero hhandle) (.inl fun d hd => hd.1 rfl)
    · rw [if_neg hsrc] at hhandle
      refine settles_of_touched h (fun d => ⟨And.right, fun hd => ⟨hsrc, hd⟩⟩) hout ?_
      cases lla with
      | none =>
        rw [← Option.some.inj hhandle]
        exact .keep h fun _ _ _ => noSend_nil
      | some lla =>
        obtain ⟨hfamiliar, hroom⟩ := hclear (by rw [hsol]; rfl) hsrc lla rfl
        exact solicitation_touched h hsrc (fun addr dest flags => ⟨addr, dest, flags, rfl⟩) hfamiliar hroom hhandle

theorem ra_settles {lla : Option Address} (h : Waits qlen s.cache) (hclear : s.Clear qlen (.event (.ra src lla)))
    (hout : s.happen cfg (.event (.ra src lla)) = some (s'.cache, sent)) :
    Waits qlen s'.cache ∧ Settles cfg s (.event (.ra src lla)) s' := by
  refine settles_of_touched h (fun _ => Iff.rfl) hout ?_
  cases lla with
  | none =>
    rw [← Option.some.inj hout]
    exact .keep h fun _ _ _ => noSend_nil
  | some lla => exact receiveLLA_touched h (hclear lla rfl) hout

/-- A step that meets the condition. -/
theorem step_settles (h : Waits qlen s.cache) (hclear : s.Clear qlen x) (hstep : (waitingMachine cfg).Step s x s') :
    Waits qlen s'.cache ∧ Settles cfg s x s' := by
  obtain ⟨henabled, hexec⟩ := hstep
  obtain ⟨⟨c', sent⟩, hout, hs'⟩ := Option.map_eq_some_iff.mp hexec
  have hcache : s'.cache = c' := by
    rw [← hs']
    cases x with
    | event event => exact after_cache s c' event
    | redirect => rfl
  rw [← hcache] at hout
  have hsame : some (s.cache, []) = some (s'.cache, sent) → Waits qlen s'.cache ∧ Settles cfg s x s' := fun heq => by
    obtain ⟨hsame, rfl⟩ := Prod.mk.inj (Option.some.inj heq)
    exact settles_of_same h hout hsame.symm (.inr noSend_nil)
  cases x with
  | redirect =>
    refine settles_of_touched h (fun _ => Iff.rfl) hout ?_
    rw [← Option.some.inj hout]
    exact redirect_touched h hclear
  | event event =>
    cases event with
    | advance => exact hsame hout
    | setAddresses => exact hsame hout
    | send => exact settles_of_touched h (fun _ => Iff.rfl) hout (send_touched h rfl hclear hout)
    | flush =>
      obtain ⟨hempty, rfl⟩ := Prod.mk.inj (Option.some.inj hout)
      refine ⟨fun dst e he => ?_, [], hout, fun dst hdst => absurd trivial hdst, fun dst e _ he hne => ?_⟩
      · rw [← hempty] at he
        cases he
      · rw [← hempty]
        exact .removed noSend_nil
    | timeout kind dst =>
      have hhandle : s.handle cfg (.timeout kind dst) = some (s'.cache, sent) := hout
      obtain ⟨e, he, -, htimeout⟩ := timeout_of_handle henabled hhandle
      refine settles_of_touched h (fun _ => Iff.rfl) hout (timeout_touched h he (fun hkind => ?_) htimeout)
      subst hkind
      exact hclear e he
    | rs => exact rs_settles h hclear hout
    | ns => exact ns_settles h hclear hout
    | na => exact settles_of_touched h (fun _ => Iff.rfl) hout (handleNA_touched h hclear hout)
    | ra => exact ra_settles h hclear hout

/-- In a run whose events meet the condition few packets wait, and those that do go on waiting until they are sent once,
all in their order, to the address that gets known, or their entry is removed. -/
theorem waits_of_run {start : ℤ} {tr : List (Timed α × Happening α)}
    (hrun : (waitingMachine cfg).Run ⟨start, interface, ∅⟩ tr s) (hclear : Machine.Meets (Timed.Clear qlen) tr) :
    Machine.EveryState (fun s => Waits qlen s.cache) tr s ∧ Machine.EveryStep (Settles cfg) tr s := by
  have hempty : Waits qlen (∅ : NdiscCache α) := fun dst e he => by cases he
  constructor
  · exact hrun.everyState_of_meets hclear hempty fun _ _ _ h hclear hstep => (step_settles h hclear hstep).1
  · exact hrun.everyStep_of_meets hclear hempty fun _ _ _ h hclear hstep => step_settles h hclear hstep

instance (cfg : Config α) (s : Timed α) : (x : Happening α) → Decidable ((waitingMachine cfg).enabled s x)
  | .event event => inferInstanceAs (Decidable (s.Enabled event))
  | .redirect .. => .isTrue trivial

namespace Small

/-- Two packets wait for the neighbour, who then answers. -/
def answered : List (Happening ℕ) :=
  [.event (.send 10 (host 2)), .event (.send 11 (host 2)),
    .event (.na (host 2) (host 2) ⟨false, true, true⟩ (some neighbour))]

/-- Four packets for a neighbour that is asked for. -/
def crowded : List (Happening ℕ) :=
  [.event (.send 10 (host 2)), .event (.send 11 (host 2)), .event (.send 12 (host 2)), .event (.send 13 (host 2))]

end Small

/-- The packets are sent, and none waits. -/
theorem waits_answered :
    ∃ out, (waitingMachine Small.config).replay ⟨0, Small.addresses, ∅⟩ Small.answered = some out ∧
      (∃ e ∈ out.2.cache.lookup (Small.host 2), e.state = .reachable ∧ e.waiting = []) ∧
      Machine.EveryState (fun s => Waits 3 s.cache) out.1 out.2 ∧
      Machine.EveryStep (Settles Small.config) out.1 out.2 := by
  obtain ⟨out, hout, hrun, hclear, hreach⟩ := Machine.exists_replay ⟨0, Small.addresses, ∅⟩ Small.answered
    (M := waitingMachine Small.config)
    (P := fun out => Machine.Meets (Timed.Clear 3) out.1 ∧
      ∃ e ∈ out.2.cache.lookup (Small.host 2), e.state = .reachable ∧ e.waiting = []) (by decide +kernel)
  exact ⟨out, hout, hreach, waits_of_run hrun hclear⟩

/-- The oldest packet is not discarded. -/
theorem not_waits_crowded :
    ¬ ∀ (tr : List (Timed ℕ × Happening ℕ)) (s : Timed ℕ),
      (waitingMachine Small.config).Run ⟨0, Small.addresses, ∅⟩ tr s →
        Machine.EveryState (fun s => Waits 3 s.cache) tr s := by
  intro hall
  obtain ⟨out, hout, hrun, hfour⟩ := Machine.exists_replay ⟨0, Small.addresses, ∅⟩ Small.crowded
    (M := waitingMachine Small.config)
    (P := fun out => ∃ e ∈ out.2.cache.lookup (Small.host 2), e.waiting = [10, 11, 12, 13]) (by decide +kernel)
  obtain ⟨e, he, hwaiting⟩ := hfour
  have hle := ((hall _ _ hrun).2 (Small.host 2) e he).le
  rw [hwaiting] at hle
  exact absurd hle (by decide)

end Ns3.NdiscCache
