import Ns3.Internet.Ipv4Fragments

/-!
# Isolation of IPv4 reassembly

Packets are told apart by their source, destination, identification and protocol, a `Flow` here. `ProcessFragment`
makes a key of them with `&` where it should have `|`: an address that was shifted by 32 bits has no bit in
common with one that was not, so all packets have the same key and there is one buffer for all of them.

* `fragmentKey_eq` — every key is zero; `processFragment_ofPending` says what this makes of `ProcessFragment`.
* `isolated` — in a run in which a fragment never comes while fragments of another packet are waiting, what happens
  to the fragments of one packet is what happens to them in the run of its own fragments and timers.
-/

namespace Ns3

open Lib

namespace Ipv4L3Protocol

/-- What tells packets apart. -/
structure Flow where
  source : Ipv4Address
  destination : Ipv4Address
  identification : UInt16
  protocol : UInt8
  deriving DecidableEq

/-- The flow of a header. -/
def flow (h : Ipv4Header) : Flow := ⟨h.source, h.destination, h.identification, h.protocol⟩

/-- A node that reassembles packets, and what it made of them. -/
structure Reassembler where
  reassembly : Reassembly
  /-- The packets that were delivered, with the header of the last fragment. -/
  delivered : List (Ipv4Header × List UInt8)
  /-- The parts of packets that were dropped, with the header of the first fragment. -/
  expired : List (Ipv4Header × List UInt8)

namespace Reassembler

/-- What happens to a node. -/
inductive Event where
  | fragment (ipHeader : Ipv4Header) (packet : List UInt8)
  /-- The timer of a key expires. -/
  | timeout (key : FragmentKey)
  deriving DecidableEq

/-- Nothing was received. -/
def new : Reassembler := ⟨.new, [], []⟩

/-- A fragment is received. -/
def receiveFragment (w : Reassembler) (ipHeader : Ipv4Header) (packet : List UInt8) : Reassembler :=
  let (complete, reassembly) := w.reassembly.processFragment packet ipHeader
  { w with reassembly, delivered := w.delivered ++ (complete.map fun p => (ipHeader, p)).toList }

/-- The timer of a key expires. -/
def expire (w : Reassembler) (key : FragmentKey) : Reassembler :=
  let (part, reassembly) := w.reassembly.handleFragmentsTimeout key
  let dropped := (w.reassembly.fragmentsTimers.lookup key).bind fun ipHeader => part.map fun p => (ipHeader, p)
  { w with reassembly, expired := w.expired ++ dropped.toList }

/-- The machine. -/
def machine : Machine Reassembler Event where
  enabled w e :=
    match e with
    | .fragment _ _ => True
    | .timeout key => key ∈ w.reassembly.fragmentsTimers
  exec w e :=
    match e with
    | .fragment ipHeader packet => some (w.receiveFragment ipHeader packet)
    | .timeout key => some (w.expire key)

instance (w : Reassembler) : (e : Event) → Decidable (machine.enabled w e)
  | .fragment _ _ => .isTrue trivial
  | .timeout _ => inferInstanceAs (Decidable (_ ∈ _))

/-- An event is one of a flow: one of its fragments comes, or the timer expires that one of them has started. -/
def Belongs (f : Flow) (x : Reassembler × Event) : Prop :=
  match x.2 with
  | .fragment ipHeader _ => flow ipHeader = f
  | .timeout key => (x.1.reassembly.fragmentsTimers.lookup key).map flow = some f

instance (f : Flow) : DecidablePred (Belongs f)
  | (_, .fragment _ _) => inferInstanceAs (Decidable (_ = _))
  | (_, .timeout _) => inferInstanceAs (Decidable (_ = _))

/-- A fragment does not come while fragments of another packet are waiting. -/
def Alone (w : Reassembler) : Event → Prop
  | .fragment ipHeader _ =>
    ∀ key first, w.reassembly.fragmentsTimers.lookup key = some first → flow first = flow ipHeader
  | .timeout _ => True

instance (w : Reassembler) : (e : Event) → Decidable (Alone w e)
  | .fragment ipHeader _ => decidable_of_iff (∀ x ∈ w.reassembly.fragmentsTimers.entries, flow x.2 = flow ipHeader)
      ⟨fun h _ first hfirst => h ⟨_, first⟩ (AList.mem_lookup_iff.mp hfirst),
        fun h x hx => h x.1 x.2 (AList.mem_lookup_iff.mpr hx)⟩
  | .timeout _ => .isTrue trivial

/-! ### One buffer -/

/-- What was shifted up by `w` has no bit in common with what has only `w`. -/
theorem shiftLeft_and_setWidth {w v : ℕ} (x y : BitVec w) : (x.setWidth v <<< w) &&& y.setWidth v = 0 := by
  ext i hi
  by_cases h : i < w
  · simp [h]
  · simp [BitVec.getLsbD_of_ge y i (Nat.le_of_not_lt h)]

theorem fragmentKey_eq (h : Ipv4Header) : fragmentKey h = (0, 0) := by
  rw [fragmentKey, shiftLeft_and_setWidth, Prod.mk.injEq, and_iff_right rfl]
  ext i hi
  by_cases hlt : i < 16
  · simp [hlt]
  · have hbit : h.protocol.toBitVec.getLsbD i = false := BitVec.getLsbD_of_ge _ i (by omega)
    simp [hbit]

/-- The buffers when at most one packet is waiting, with the header of its first fragment. -/
def ofPending : Option (Ipv4Header × Fragments) → Reassembly
  | none => .new
  | some (first, fragments) => ⟨.singleton (0, 0) fragments, .singleton (0, 0) first⟩

/-- What `ProcessFragment` does to them. -/
def receive (pending : Option (Ipv4Header × Fragments)) (packet : List UInt8) (ipHeader : Ipv4Header) :
    Option (List UInt8) × Option (Ipv4Header × Fragments) :=
  let fragments := ((pending.map Prod.snd).getD .new).addFragment packet ipHeader.fragmentOffset
    (!ipHeader.isLastFragment)
  if fragments.isEntire then (some fragments.getPacket, none)
  else (none, some ((pending.map Prod.fst).getD ipHeader, fragments))

theorem erase_singleton {α : Type} (a : α) :
    (AList.singleton (0, 0) a : AList fun _ : FragmentKey => α).erase (0, 0) = ∅ := by
  refine AList.ext ?_
  change List.kerase ((0, 0) : FragmentKey) (⟨(0, 0), a⟩ :: []) = []
  exact List.kerase_cons_eq rfl

theorem lookup_singleton {α : Type} (key : FragmentKey) (a : α) :
    (AList.singleton (0, 0) a : AList fun _ : FragmentKey => α).lookup key = if key = (0, 0) then some a else none := by
  split_ifs with h
  · rw [h, ← AList.insert_empty, AList.lookup_insert]
  · rw [← AList.insert_empty, AList.lookup_insert_ne h, AList.lookup_empty]

theorem processFragment_ofPending (pending : Option (Ipv4Header × Fragments)) (packet : List UInt8)
    (ipHeader : Ipv4Header) :
    (ofPending pending).processFragment packet ipHeader =
      ((receive pending packet ipHeader).1, ofPending (receive pending packet ipHeader).2) := by
  rw [Reassembly.processFragment, fragmentKey_eq, receive]
  rcases pending with _ | ⟨first, fragments⟩
  · have hlookup : (ofPending none).fragments.lookup (0, 0) = none := AList.lookup_empty _
    rw [hlookup]
    dsimp only [Option.map_none, Option.getD_none]
    split_ifs with hentire
    · refine Prod.mk.injEq _ _ _ _ ▸ ⟨rfl, ?_⟩
      have htimers : ((ofPending none).fragmentsTimers.insert (0, 0) ipHeader).erase (0, 0) = ∅ :=
        erase_singleton ipHeader
      rw [htimers]
      rfl
    · rfl
  · have hlookup : (ofPending (some (first, fragments))).fragments.lookup (0, 0) = some fragments :=
      (lookup_singleton (0, 0) fragments).trans (if_pos rfl)
    rw [hlookup]
    dsimp only [Option.map_some, Option.getD_some]
    split_ifs with hentire
    · refine Prod.mk.injEq _ _ _ _ ▸ ⟨rfl, ?_⟩
      dsimp only [ofPending]
      rw [erase_singleton, erase_singleton]
      rfl
    · refine Prod.mk.injEq _ _ _ _ ▸ ⟨rfl, ?_⟩
      dsimp only [ofPending]
      rw [AList.insert_singleton_eq]

theorem handleFragmentsTimeout_ofPending (first : Ipv4Header) (fragments : Fragments) :
    (ofPending (some (first, fragments))).handleFragmentsTimeout (0, 0) =
      (some fragments.getPartialPacket, ofPending none) := by
  rw [Reassembly.handleFragmentsTimeout]
  dsimp only [ofPending]
  rw [lookup_singleton, if_pos rfl, erase_singleton, erase_singleton]
  rfl

/-! ### The runs of one packet -/

/-- The events of a flow. -/
def eventsOf (f : Flow) (tr : List (Reassembler × Event)) : List Event := (tr.filter (Belongs f)).map Prod.snd

/-- What of a node is of a flow, when at most one packet is waiting. -/
structure Projects (f : Flow) (w w' : Reassembler) : Prop where
  /-- What is waiting in the one and in the other. -/
  pending : ∃ pending, w.reassembly = ofPending pending ∧
    w'.reassembly = ofPending (pending.filter fun p => flow p.1 = f)
  delivered : w'.delivered = w.delivered.filter fun d => flow d.1 = f
  expired : w'.expired = w.expired.filter fun d => flow d.1 = f

variable {w : Reassembler} {packet : List UInt8}

/-- The packet that is waiting, if there is one, has the flow of the fragment that comes. -/
theorem Alone.flow_eq {ipHeader first : Ipv4Header} {fragments : Fragments} (h : Alone w (.fragment ipHeader packet))
    (hw : w.reassembly = ofPending (some (first, fragments))) : flow first = flow ipHeader := by
  refine h (0, 0) first ?_
  rw [hw]
  exact (lookup_singleton (0, 0) first).trans (if_pos rfl)

variable {pending : Option (Ipv4Header × Fragments)}

/-- The packet that waits after a fragment has its flow, if the one that waited before has. -/
theorem flow_receive {ipHeader : Ipv4Header} (h : ∀ p ∈ pending, flow p.1 = flow ipHeader) :
    ∀ p ∈ (receive pending packet ipHeader).2, flow p.1 = flow ipHeader := by
  rw [receive]
  split_ifs
  · simp
  · rintro p ⟨⟩
    cases pending with
    | none => rfl
    | some first => exact h first rfl

theorem filter_eq_self {f : Flow} (h : ∀ p ∈ pending, flow p.1 = f) :
    pending.filter (fun p => decide (flow p.1 = f)) = pending := by
  cases pending with
  | none => rfl
  | some p => simp [Option.filter, h p rfl]

theorem filter_eq_none {f g : Flow} (h : ∀ p ∈ pending, flow p.1 = g) (hne : g ≠ f) :
    pending.filter (fun p => decide (flow p.1 = f)) = none := by
  cases pending with
  | none => rfl
  | some p => simp [Option.filter, h p rfl, hne]

theorem exec_fragment {ipHeader : Ipv4Header} (hw : w.reassembly = ofPending pending) :
    machine.exec w (.fragment ipHeader packet) = some
      { w with
        reassembly := ofPending (receive pending packet ipHeader).2
        delivered := w.delivered ++ ((receive pending packet ipHeader).1.map fun p => (ipHeader, p)).toList } := by
  refine congrArg some ?_
  rw [receiveFragment, hw, processFragment_ofPending]

theorem exec_timeout {first : Ipv4Header} {fragments : Fragments}
    (hw : w.reassembly = ofPending (some (first, fragments))) :
    machine.exec w (.timeout (0, 0)) = some
      { w with reassembly := .new, expired := w.expired ++ [(first, fragments.getPartialPacket)] } := by
  refine congrArg some ?_
  rw [expire, hw, handleFragmentsTimeout_ofPending]
  dsimp only [ofPending]
  rw [lookup_singleton, if_pos rfl]
  rfl

/-- A timer that can expire is the one of the packet that is waiting. -/
theorem timeout_enabled {key : FragmentKey} (hw : w.reassembly = ofPending pending)
    (he : machine.enabled w (.timeout key)) : key = (0, 0) ∧ ∃ p, pending = some p := by
  have hmem : key ∈ w.reassembly.fragmentsTimers := he
  rw [← AList.lookup_isSome, hw] at hmem
  cases pending with
  | none => exact absurd hmem (by simp [ofPending, Reassembly.new])
  | some p =>
    dsimp only [ofPending] at hmem
    rw [lookup_singleton] at hmem
    split_ifs at hmem with hkey
    · exact ⟨hkey, p, rfl⟩
    · exact absurd hmem (by simp)

/-- What the waiting fragments of a flow are told by, is an event of the flow or leaves them alone. -/
theorem projects_step {f : Flow} {w v w' : Reassembler} {e : Event} (h : Projects f w w') (halone : Alone w e)
    (hstep : machine.Step w e v) :
    (Belongs f (w, e) → ∃ v', machine.Step w' e v' ∧ Projects f v v') ∧ (¬ Belongs f (w, e) → Projects f v w') := by
  obtain ⟨⟨pending, hw, hw'⟩, hdelivered, hexpired⟩ := h
  obtain ⟨henabled, hexec⟩ := hstep
  cases e with
  | fragment ipHeader packet =>
    obtain rfl := Option.some.inj ((exec_fragment hw).symm.trans hexec)
    have hsame : ∀ p ∈ pending, flow p.1 = flow ipHeader := by
      rintro ⟨first, fragments⟩ rfl
      exact halone.flow_eq hw
    have hafter : ∀ p ∈ (receive pending packet ipHeader).2, flow p.1 = flow ipHeader := flow_receive hsame
    constructor
    · intro hf
      obtain rfl : flow ipHeader = f := hf
      rw [filter_eq_self hsame] at hw'
      refine ⟨_, ⟨trivial, exec_fragment hw'⟩, ⟨_, rfl, ?_⟩, ?_, hexpired⟩
      · rw [filter_eq_self hafter]
      · rw [hdelivered, List.filter_append]
        cases (receive pending packet ipHeader).1 <;> simp
    · intro hf
      have hne : flow ipHeader ≠ f := hf
      refine ⟨⟨_, rfl, ?_⟩, ?_, hexpired⟩
      · rw [hw', filter_eq_none hsame hne, filter_eq_none hafter hne]
      · rw [hdelivered, List.filter_append]
        cases (receive pending packet ipHeader).1 <;> simp [hne]
  | timeout key =>
    obtain ⟨rfl, ⟨first, fragments⟩, rfl⟩ := timeout_enabled hw henabled
    obtain rfl := Option.some.inj ((exec_timeout hw).symm.trans hexec)
    have hlookup : (w.reassembly.fragmentsTimers.lookup (0, 0)).map flow = some (flow first) := by
      rw [hw]
      dsimp only [ofPending]
      rw [lookup_singleton, if_pos rfl]
      rfl
    constructor
    · intro hf
      obtain rfl : flow first = f := Option.some.inj (hlookup.symm.trans hf)
      rw [filter_eq_self (by simp)] at hw'
      refine ⟨_, ⟨?_, exec_timeout hw'⟩, ⟨none, rfl, rfl⟩, hdelivered, ?_⟩
      · change (0, 0) ∈ w'.reassembly.fragmentsTimers
        rw [hw', ← AList.lookup_isSome]
        dsimp only [ofPending]
        rw [lookup_singleton, if_pos rfl]
        rfl
      · rw [hexpired, List.filter_append]
        simp
    · intro hf
      have hne : flow first ≠ f := fun h => hf (hlookup.trans (congrArg some h))
      refine ⟨⟨none, rfl, ?_⟩, hdelivered, ?_⟩
      · rw [hw', filter_eq_none (g := flow first) (by simp) hne]
        rfl
      · rw [hexpired, List.filter_append]
        simp [hne]

/-- In a run in which no fragment comes while another packet waits, every packet fares as it does alone. -/
theorem isolated {tr : List (Reassembler × Event)} {w : Reassembler} (hrun : machine.Run new tr w)
    (halone : Machine.Meets Alone tr) (f : Flow) :
    ∃ tr' w', machine.Run new tr' w' ∧ tr'.map Prod.snd = eventsOf f tr ∧
      w'.delivered = w.delivered.filter (fun d => flow d.1 = f) ∧
      w'.expired = w.expired.filter (fun d => flow d.1 = f) := by
  suffices h : ∃ tr' w', machine.Run new tr' w' ∧ tr'.map Prod.snd = eventsOf f tr ∧ Projects f w w' by
    obtain ⟨tr', w', hrun', hevents, hprojects⟩ := h
    exact ⟨tr', w', hrun', hevents, hprojects.delivered, hprojects.expired⟩
  induction hrun with
  | nil => exact ⟨[], new, .nil, rfl, ⟨none, rfl, rfl⟩, rfl, rfl⟩
  | @snoc tr w v e _ hstep ih =>
    obtain ⟨hbefore, hlast⟩ := Machine.meets_snoc.mp halone
    obtain ⟨tr', w', hrun', hevents, hprojects⟩ := ih hbefore
    obtain ⟨hmine, hother⟩ := projects_step hprojects hlast hstep
    by_cases hf : Belongs f (w, e)
    · obtain ⟨v', hstep', hprojects'⟩ := hmine hf
      refine ⟨tr' ++ [(w', e)], v', hrun'.snoc hstep', ?_, hprojects'⟩
      simp [eventsOf, hf, hevents]
    · refine ⟨tr', w', hrun', ?_, hother hf⟩
      simp [eventsOf, hf, hevents]

/-- A header of a fragment from `10.0.0.host` to `10.0.0.9`. -/
def headerFrom (host : BitVec 32) (moreFragments : Bool) (offset : ℕ) : Ipv4Header :=
  ⟨⟨0x0a000000 + host⟩, ⟨0x0a000009⟩, 17, 1, 64, false, moreFragments, offset, 8⟩

/-- The first fragment of a packet of one host, then the last one of a packet of another. -/
def mixedEvents : List Event :=
  [.fragment (headerFrom 1 true 0) (List.replicate 8 1), .fragment (headerFrom 2 false 8) (List.replicate 8 2)]

/-- The first and the last fragment of one packet. -/
def ownEvents : List Event :=
  [.fragment (headerFrom 1 true 0) (List.replicate 8 1), .fragment (headerFrom 1 false 8) (List.replicate 8 2)]

theorem isolated_own : ∃ tr w, machine.Run new tr w ∧ tr.map Prod.snd = ownEvents ∧ ∃ tr' w', machine.Run new tr' w' ∧
    tr'.map Prod.snd = eventsOf (flow (headerFrom 1 true 0)) tr ∧
    w'.delivered = w.delivered.filter (fun d => flow d.1 = flow (headerFrom 1 true 0)) ∧
    w'.expired = w.expired.filter (fun d => flow d.1 = flow (headerFrom 1 true 0)) := by
  obtain ⟨out, -, hrun, hevents, halone⟩ := Machine.exists_replay (M := machine) new ownEvents
    (P := fun out => out.1.map Prod.snd = ownEvents ∧ Machine.Meets Alone out.1) (by decide +kernel)
  exact ⟨out.1, out.2, hrun, hevents, isolated hrun halone _⟩

/-- A packet is put together from fragments of two hosts. -/
theorem mixed : ¬ ∀ (tr : List (Reassembler × Event)) (w : Reassembler), machine.Run new tr w → ∀ f : Flow,
    ∃ tr' w', machine.Run new tr' w' ∧ tr'.map Prod.snd = eventsOf f tr ∧
      w'.delivered = w.delivered.filter (fun d => flow d.1 = f) ∧
      w'.expired = w.expired.filter (fun d => flow d.1 = f) := by
  intro h
  obtain ⟨out, -, hrun, hevents, hdelivered⟩ := Machine.exists_replay (M := machine) new mixedEvents
    (P := fun out => eventsOf (flow (headerFrom 2 false 8)) out.1 = mixedEvents.drop 1 ∧
      out.2.delivered = [(headerFrom 2 false 8, List.replicate 8 1 ++ List.replicate 8 2)]) (by decide +kernel)
  obtain ⟨alone, -, hrun', hevents', hnothing⟩ := Machine.exists_replay (M := machine) new (mixedEvents.drop 1)
    (P := fun out => out.1.map Prod.snd = mixedEvents.drop 1 ∧ out.2.delivered = []) (by decide +kernel)
  obtain ⟨tr', w', hrun'', hevents'', hsame, -⟩ := h out.1 out.2 hrun (flow (headerFrom 2 false 8))
  obtain ⟨-, rfl⟩ := hrun''.eq_of_events hrun' (hevents''.trans (hevents.trans hevents'.symm))
  rw [hnothing, hdelivered] at hsame
  exact absurd hsame (by decide)

end Reassembler

end Ipv4L3Protocol

end Ns3
