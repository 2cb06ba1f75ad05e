import Ns3.Core.Timer
import Ns3.Lib.Machine
import Ns3.Olsr.Topology

/-!
# The freshness of OLSR's topology set

A receiver and one originator, which counts the neighbours it advertises with an ANSN. The number is that of 16 bits,
which the receiver compares as it is; it knows of it only by the tuples of the originator that it holds.

* `Originator`, `Receiver`, `machine` — the messages of the originator come in any order, any number of times.
* `Receiver.Tracks` — the invariant: the tuples are those of the most recent message that was processed.
* `Receiver.Compares` — the condition on a message: the numbers compare like those without the modulus.
* `Receiver.fresh_of_compares` — in a run whose steps meet it the set is that of the most recent message.
-/

namespace Ns3.Olsr

open Lib

/-- `OLSR_MAX_SEQ_NUM`. -/
def maxSeqNum : ℕ := 65535

/-- `IncrementAnsn`. -/
def incrementAnsn (ansn : UInt16) : UInt16 := UInt16.ofNat ((ansn.toNat + 1) % (maxSeqNum + 1))

/-- The ANSN of a number. -/
def ansn (number : ℕ) : UInt16 := UInt16.ofNat number

/-- The numbers count how often the ANSN is incremented. -/
theorem ansn_succ (number : ℕ) : ansn (number + 1) = incrementAnsn (ansn number) := by
  rw [← UInt16.toNat_inj, incrementAnsn, ansn, ansn, UInt16.toNat_ofNat', UInt16.toNat_ofNat', UInt16.toNat_ofNat',
    maxSeqNum]
  omega

/-- An originator: its messages have numbers that increase by less than half of those of an ANSN. -/
structure Originator where
  address : Ipv4Address
  number : ℕ → ℕ
  /-- How long a message is valid. -/
  vTime : ℕ → ℕ
  /-- What is advertised under a number. -/
  advertised : ℕ → List Ipv4Address
  /-- The numbers do not decrease. -/
  number_le : ∀ k, number k ≤ number (k + 1)
  /-- They increase by less than `2 ^ 15`. -/
  number_lt : ∀ k, number (k + 1) < number k + 2 ^ 15

/-- A message of the originator. -/
def Originator.message (o : Originator) (k : ℕ) : TcMessage :=
  ⟨o.address, o.vTime k, ansn (o.number k), o.advertised (o.number k)⟩

/-- A node that receives the messages. -/
structure Receiver where
  state : OlsrState
  now : ℤ
  /-- The most recent number of the originator that was processed, and the time until which that is valid. -/
  recent : Option (ℕ × ℤ)

/-- What happens at a receiver. -/
inductive TopologyEvent where
  /-- A message of the originator. -/
  | tc (k : ℕ) (senderIface : Ipv4Address)
  | other (msg : TcMessage) (senderIface : Ipv4Address)
  | timer (destAddr lastAddr : Ipv4Address)
  /-- Another event, which does not touch the topology set. -/
  | change (state : OlsrState)

/-- What happens, and when. -/
structure ReceiverEvent where
  now : ℤ
  event : TopologyEvent

namespace Receiver

variable {o : Originator} {x x' : Receiver} {now : ℤ}

/-- A node that starts. -/
def new (state : OlsrState) (now : ℤ) : Receiver := ⟨{ state with topologySet := [] }, now, none⟩

/-- A number is processed. -/
def see (recent : Option (ℕ × ℤ)) (number : ℕ) (time : ℤ) : ℕ × ℤ :=
  match recent with
  | some (m, t) => if number < m then (m, t) else (number, time)
  | none => (number, time)

/-- The handler of an event. -/
def handle (o : Originator) (x : Receiver) (now : ℤ) : TopologyEvent → Receiver
  | .tc k senderIface =>
    { state := x.state.processTc now (o.message k) senderIface
      now := now
      recent :=
        if (x.state.findSymLinkTuple senderIface now).isSome then
          some (see x.recent (o.number k) (now + o.vTime k))
        else x.recent }
  | .other msg senderIface => { x with state := x.state.processTc now msg senderIface, now := now }
  | .timer destAddr lastAddr => { x with state := x.state.topologyTupleTimerExpire now destAddr lastAddr, now := now }
  | .change state => { x with state := { state with topologySet := x.state.topologySet }, now := now }

/-- A message of another one is that. -/
def Enabled (o : Originator) : TopologyEvent → Prop
  | .other msg _ => msg.originatorAddress ≠ o.address
  | _ => True

/-- A receiver of the messages of an originator. -/
def machine (o : Originator) : Machine Receiver ReceiverEvent where
  enabled x e := x.now ≤ e.now ∧ Enabled o e.event
  exec x e := some (x.handle o e.now e.event)

/-- The set has exactly what the most recent number advertises, as long as that is valid. -/
def Exact (o : Originator) (x : Receiver) : Prop :=
  match x.recent with
  | some (m, time) => (∀ a, x.state.Holds o.address a → a ∈ o.advertised m) ∧
      ∀ a ∈ o.advertised m, x.state.Holds o.address a ∨ time < x.now
  | none => ∀ a, ¬ x.state.Holds o.address a

/-- A message is older than the most recent one. -/
def Older (x : Receiver) (number : ℕ) : Prop :=
  match x.recent with
  | some (m, _) => number < m
  | none => False

/-- An older message does not change the set. -/
def KeepsOlder (o : Originator) (x : Receiver) (e : ReceiverEvent) (x' : Receiver) : Prop :=
  match e.event with
  | .tc k _ => x.Older (o.number k) → ∀ tuple, tuple ∈ x'.state.topologySet ↔ tuple ∈ x.state.topologySet
  | _ => True

/-- The set has no tuple of the originator. -/
def Empty (o : Originator) (x : Receiver) : Prop := ∀ tuple ∈ x.state.topologySet, tuple.lastAddr ≠ o.address
deriving Decidable

/-- The condition on an event: a message that is newer than the most recent one has the greater ANSN, or nothing is held
of the originator; one that is older has the smaller ANSN, and something is held or nothing is advertised. -/
def Compares (o : Originator) (x : Receiver) (e : ReceiverEvent) : Prop :=
  match e.event with
  | .tc k senderIface =>
    (x.state.findSymLinkTuple senderIface e.now).isSome → ∀ recent ∈ x.recent,
      (recent.1 < o.number k → x.Empty o ∨ ansn recent.1 < ansn (o.number k)) ∧
        (o.number k < recent.1 →
          if x.Empty o then o.advertised (o.number k) = [] else ansn (o.number k) < ansn recent.1)
  | _ => True

instance decidableEnabled (o : Originator) : DecidablePred (Enabled o)
  | .other _ _ => inferInstanceAs (Decidable (_ ≠ _))
  | .tc _ _ | .timer _ _ | .change _ => .isTrue trivial

instance (x : Receiver) (e : ReceiverEvent) : Decidable ((machine o).enabled x e) :=
  inferInstanceAs (Decidable (_ ∧ Enabled _ _))

instance decidableCompares (o : Originator) (x : Receiver) : DecidablePred (Compares o x)
  | ⟨_, .tc _ _⟩ => inferInstanceAs (Decidable (_ → ∀ _ ∈ _, (_ → _) ∧ (_ → _)))
  | ⟨_, .other _ _⟩ | ⟨_, .timer _ _⟩ | ⟨_, .change _⟩ => .isTrue trivial

/-- The tuples of the originator are those of the most recent number. -/
structure Tracks (o : Originator) (x : Receiver) : Prop where
  /-- There is one tuple for a key. -/
  unique : x.state.Unique
  /-- Without a message there is no tuple. -/
  none : x.recent = none → x.Empty o
  own : ∀ m time, x.recent = some (m, time) → ∀ tuple ∈ x.state.topologySet, tuple.lastAddr = o.address →
    tuple.sequenceNumber = ansn m ∧ tuple.destAddr ∈ o.advertised m ∧ tuple.expirationTime = time
  /-- What is not there is not valid any more. -/
  found : ∀ m time, x.recent = some (m, time) → ∀ a ∈ o.advertised m, x.state.Holds o.address a ∨ time < x.now

section

variable (hx : x.Tracks o)
include hx

theorem Tracks.exact : x.Exact o := by
  rw [Exact]
  cases hrecent : x.recent with
  | none =>
    rintro a ⟨tuple, htuple, hkey⟩
    exact hx.none hrecent tuple htuple (congrArg Prod.snd hkey)
  | some recent =>
    obtain ⟨m, time⟩ := recent
    refine ⟨?_, hx.found m time hrecent⟩
    rintro a ⟨tuple, htuple, hkey⟩
    obtain ⟨-, hdest, -⟩ := hx.own m time hrecent tuple htuple (congrArg Prod.snd hkey)
    rwa [show tuple.destAddr = a from congrArg Prod.fst hkey] at hdest

/-- What leaves the tuples of the originator as they are keeps the invariant. -/
theorem Tracks.frame (hunique : x'.state.Unique) (hrecent : x'.recent = x.recent) (hnow : x.now ≤ x'.now)
    (hsame : ∀ tuple, tuple.lastAddr = o.address → (tuple ∈ x'.state.topologySet ↔ tuple ∈ x.state.topologySet)) :
    x'.Tracks o := by
  refine ⟨hunique, fun hnone tuple htuple heq => ?_, fun m time hsome tuple htuple heq => ?_,
    fun m time hsome a ha => ?_⟩
  · rw [hrecent] at hnone
    exact hx.none hnone tuple ((hsame tuple heq).mp htuple) heq
  · rw [hrecent] at hsome
    exact hx.own m time hsome tuple ((hsame tuple heq).mp htuple) heq
  · rw [hrecent] at hsome
    refine (hx.found m time hsome a ha).imp ?_ fun htime => Int.lt_of_lt_of_le htime hnow
    rintro ⟨tuple, htuple, hkey⟩
    exact ⟨tuple, (hsame tuple (congrArg Prod.snd hkey)).mpr htuple, hkey⟩

theorem Tracks.other (hnow : x.now ≤ now) {msg : TcMessage} (hother : msg.originatorAddress ≠ o.address)
    (senderIface : Ipv4Address) : (x.handle o now (.other msg senderIface)).Tracks o := by
  have hne : ∀ tuple : TopologyTuple, tuple.lastAddr = o.address → tuple.lastAddr ≠ msg.originatorAddress :=
    fun tuple heq hmsg => hother (hmsg.symm.trans heq)
  obtain ⟨-, heq⟩ | ⟨-, heq, -⟩ | ⟨-, htaken, -⟩ := OlsrState.processTc_cases hx.unique now msg senderIface
  · refine hx.frame ?_ rfl hnow fun tuple _ => ?_
    · rw [handle, heq]
      exact hx.unique
    · rw [handle, heq]
  · refine hx.frame ?_ rfl hnow fun tuple _ => ?_
    · rw [handle, heq]
      exact hx.unique
    · rw [handle, heq]
  · exact hx.frame htaken.unique rfl hnow fun tuple hown => htaken.others tuple (hne tuple hown)

theorem Tracks.timer (hnow : x.now ≤ now) (destAddr lastAddr : Ipv4Address) :
    (x.handle o now (.timer destAddr lastAddr)).Tracks o := by
  obtain ⟨hunique, hsub, hremoved⟩ := OlsrState.topologyTupleTimerExpire_spec hx.unique now destAddr lastAddr
  refine ⟨hunique, fun hnone tuple htuple => hx.none hnone tuple (hsub tuple htuple),
    fun m time hsome tuple htuple => hx.own m time hsome tuple (hsub tuple htuple), fun m time hsome a ha => ?_⟩
  rcases hx.found m time hsome a ha with ⟨tuple, htuple, hkey⟩ | htime
  · rcases hremoved tuple htuple with hstays | hover
    · exact .inl ⟨tuple, hstays, hkey⟩
    · -- the tuple has the time of the message
      obtain ⟨-, -, htime⟩ := hx.own m time hsome tuple htuple (congrArg Prod.snd hkey)
      exact .inr (htime ▸ hover)
  · exact .inr (Int.lt_of_lt_of_le htime hnow)

/-- A message of the originator that is taken, when it is not older. -/
theorem Tracks.taken {k : ℕ} {state : OlsrState} (htaken : OlsrState.Taken (o.message k) now x.state state)
    (hnew : ∀ m time, x.recent = some (m, time) → m < o.number k → x.Empty o ∨ ansn m < ansn (o.number k))
    (hle : ¬ x.Older (o.number k)) : (⟨state, now, some (o.number k, now + o.vTime k)⟩ : Receiver).Tracks o := by
  refine ⟨htaken.unique, fun hnone => absurd hnone nofun, fun m time hsome tuple htuple heq => ?_,
    fun m time hsome a ha => ?_⟩
  · obtain ⟨rfl, rfl⟩ := Prod.mk.inj (Option.some.inj hsome)
    obtain ⟨hseq, ⟨hnotMem, hold⟩ | ⟨hmem, htime⟩⟩ := htaken.own tuple htuple heq
    · -- a tuple that was there is one of the most recent number
      exfalso
      cases hrecent : x.recent with
      | none => exact hx.none hrecent tuple hold heq
      | some recent =>
        obtain ⟨m, time⟩ := recent
        obtain ⟨hseq', hmem, -⟩ := hx.own m time hrecent tuple hold heq
        have hge : ¬ o.number k < m := by
          rwa [Older, hrecent] at hle
        rcases Nat.lt_or_eq_of_le (Nat.le_of_not_lt hge) with hlt | rfl
        · rcases hnew m time hrecent hlt with hempty | hlt'
          · exact hempty tuple hold heq
          · rw [hseq'] at hseq
            rw [hseq] at hlt'
            exact UInt16.lt_irrefl _ hlt'
        · exact hnotMem hmem
    · exact ⟨hseq, hmem, htime⟩
  · obtain ⟨rfl, rfl⟩ := Prod.mk.inj (Option.some.inj hsome)
    exact .inl (htaken.found a ha)

theorem Tracks.tc (hnow : x.now ≤ now) {k : ℕ} {senderIface : Ipv4Address}
    (hcompares : x.Compares o ⟨now, .tc k senderIface⟩) :
    (x.handle o now (.tc k senderIface)).Tracks o ∧
      x.KeepsOlder o ⟨now, .tc k senderIface⟩ (x.handle o now (.tc k senderIface)) := by
  rw [handle]
  obtain ⟨hlink, heq⟩ | ⟨hlink, heq, tuple, htuple, hown, hlt⟩ | ⟨hlink, htaken, hnot⟩ :=
    OlsrState.processTc_cases hx.unique now (o.message k) senderIface
  · rw [heq, hlink]
    exact ⟨hx.frame hx.unique rfl hnow fun _ _ => .rfl, fun _ _ => .rfl⟩
  · -- there is a tuple with a greater number, which is that of the most recent message
    rw [heq, if_pos hlink]
    refine ⟨?_, fun _ _ => .rfl⟩
    cases hrecent : x.recent with
    | none => exact absurd hown (hx.none hrecent tuple htuple)
    | some recent =>
      obtain ⟨m, time⟩ := recent
      obtain ⟨hseq, -⟩ := hx.own m time hrecent tuple htuple hown
      rw [hseq] at hlt
      have holder : o.number k < m := by
        rcases Nat.lt_trichotomy (o.number k) m with hless | rfl | hgreater
        · exact hless
        · exact absurd hlt (UInt16.lt_irrefl _)
        · rcases (hcompares hlink _ hrecent).1 hgreater with hempty | hlt'
          · exact absurd hown (hempty tuple htuple)
          · exact absurd (UInt16.lt_trans hlt hlt') (UInt16.lt_irrefl _)
      rw [see, if_pos holder, ← hrecent]
      exact hx.frame hx.unique rfl hnow fun _ _ => .rfl
  · rw [if_pos hlink]
    by_cases holder : x.Older (o.number k)
    · -- an older message is taken only if nothing is held, and changes nothing if nothing is advertised
      rw [Older] at holder
      cases hrecent : x.recent with
      | none =>
        rw [hrecent] at holder
        exact absurd holder id
      | some recent =>
        rw [hrecent] at holder
        have hcond := (hcompares hlink _ hrecent).2 holder
        obtain ⟨m, time⟩ := recent
        split_ifs at hcond with hempty
        · have hempty' : ∀ tuple ∈ (x.state.processTc now (o.message k) senderIface).topologySet,
              tuple.lastAddr ≠ o.address := by
            intro tuple htuple heq
            obtain ⟨-, ⟨-, hold⟩ | ⟨hmem, -⟩⟩ := htaken.own tuple htuple heq
            · exact hempty tuple hold heq
            · rw [Originator.message, hcond] at hmem
              exact absurd hmem List.not_mem_nil
          have hsame : ∀ tuple, tuple ∈ (x.state.processTc now (o.message k) senderIface).topologySet ↔
              tuple ∈ x.state.topologySet := by
            intro tuple
            by_cases heq : tuple.lastAddr = o.address
            · exact iff_of_false (fun htuple => hempty' tuple htuple heq) fun htuple => hempty tuple htuple heq
            · exact htaken.others tuple heq
          rw [see, if_pos holder, ← hrecent]
          exact ⟨hx.frame htaken.unique rfl hnow fun tuple _ => hsame tuple, fun _ => hsame⟩
        · exfalso
          obtain ⟨tuple, htuple, hown⟩ : ∃ tuple ∈ x.state.topologySet, tuple.lastAddr = o.address := by
            simpa [Empty] using hempty
          obtain ⟨hseq, -⟩ := hx.own m time hrecent tuple htuple hown
          have hge := hnot tuple htuple hown
          rw [hseq] at hge
          exact hge hcond
    · have hsee : see x.recent (o.number k) (now + o.vTime k) = (o.number k, now + o.vTime k) := by
        rw [Older] at holder
        cases hrecent : x.recent with
        | none => rfl
        | some recent =>
          rw [hrecent] at holder
          exact if_neg holder
      rw [hsee]
      refine ⟨hx.taken htaken (fun m time hrecent hlt => (hcompares hlink _ hrecent).1 hlt) holder, ?_⟩
      exact fun holder' => absurd holder' holder

theorem Tracks.handle {e : ReceiverEvent} (he : (machine o).enabled x e) (hcompares : x.Compares o e) :
    (x.handle o e.now e.event).Tracks o ∧ x.KeepsOlder o e (x.handle o e.now e.event) := by
  obtain ⟨now, event⟩ := e
  obtain ⟨hnow, hother⟩ := he
  cases event with
  | tc k senderIface => exact hx.tc hnow hcompares
  | other msg senderIface => exact ⟨hx.other hnow hother senderIface, trivial⟩
  | timer destAddr lastAddr => exact ⟨hx.timer hnow destAddr lastAddr, trivial⟩
  | change state => exact ⟨hx.frame hx.unique rfl hnow fun _ _ => .rfl, trivial⟩

end

theorem tracks_new (state : OlsrState) (now : ℤ) : (Receiver.new state now).Tracks o :=
  ⟨List.nodup_nil, fun _ _ htuple => absurd htuple List.not_mem_nil, fun _ _ hsome => absurd hsome nofun,
    fun _ _ hsome => absurd hsome nofun⟩

/-- In a run whose steps meet the condition the set is always that of the most recent message, as long as that is valid,
and an older message never changes it. -/
theorem fresh_of_compares (o : Originator) (state : OlsrState) (now : ℤ) (tr : List (Receiver × ReceiverEvent))
    (x : Receiver) (h : (machine o).Run (.new state now) tr x) (hcompares : Machine.Meets (Compares o) tr) :
    Machine.EveryState (Exact o) tr x ∧ Machine.EveryStep (KeepsOlder o) tr x := by
  constructor
  · have htracks : Machine.EveryState (Tracks o) tr x := by
      refine h.everyState_of_meets hcompares (tracks_new state now) ?_
      rintro x e x' hx he ⟨hen, hexec⟩
      cases hexec
      exact (hx.handle hen he).1
    exact ⟨fun y hy => (htracks.1 y hy).exact, htracks.2.exact⟩
  · refine h.everyStep_of_meets (I := Tracks o) hcompares (tracks_new state now) ?_
    rintro x e x' hx he ⟨hen, hexec⟩
    cases hexec
    exact hx.handle hen he

/-- An originator that counts on from a number, and advertises an address of its own for each, for `TOP_HOLD_TIME`. -/
def counting (number : ℕ) : Originator where
  address := ⟨9⟩
  number k := number + k
  vTime _ := 15000000000
  advertised m := [⟨BitVec.ofNat 32 m⟩, ⟨8⟩]
  number_le _ := Nat.le_succ _
  number_lt k := by omega

/-- A node with a symmetric link to the interface 2. -/
def linked : OlsrState := ⟨[⟨⟨1⟩, ⟨2⟩, Time.seconds 100, Time.seconds 100, Time.seconds 100⟩], [], [], [], []⟩

/-- The third message is received before the second, and again when the timers have expired. -/
def outOfOrder : List ReceiverEvent :=
  [⟨0, .tc 0 ⟨2⟩⟩, ⟨Time.seconds 1, .tc 2 ⟨2⟩⟩, ⟨Time.seconds 2, .tc 1 ⟨2⟩⟩, ⟨Time.seconds 17, .timer ⟨7⟩ ⟨9⟩⟩,
    ⟨Time.seconds 18, .tc 2 ⟨2⟩⟩]

theorem fresh_of_compares_counting : ∃ out,
    (machine (counting 5)).replay (.new linked 0) outOfOrder = some out ∧
      Machine.EveryState (Exact (counting 5)) out.1 out.2 ∧
      Machine.EveryStep (KeepsOlder (counting 5)) out.1 out.2 := by
  obtain ⟨out, hout, hrun, hmeets⟩ := Machine.exists_replay (M := machine (counting 5)) (.new linked 0) outOfOrder
    (P := fun out => Machine.Meets (Compares (counting 5)) out.1) (by decide +kernel)
  exact ⟨out, hout, fresh_of_compares (counting 5) linked 0 out.1 out.2 hrun hmeets⟩

/-- The ANSN goes from 65535 to 0, and the newer message is discarded. -/
theorem not_fresh_counting : ¬ ∀ (tr : List (Receiver × ReceiverEvent)) (x : Receiver),
    (machine (counting 65535)).Run (.new linked 0) tr x →
      Machine.EveryState (Exact (counting 65535)) tr x ∧ Machine.EveryStep (KeepsOlder (counting 65535)) tr x := by
  intro h
  obtain ⟨out, -, hrun, hrecent, hholds⟩ := Machine.exists_replay (M := machine (counting 65535)) (.new linked 0)
    [⟨0, .tc 0 ⟨2⟩⟩, ⟨Time.seconds 5, .tc 1 ⟨2⟩⟩]
    (P := fun out => out.2.recent = some (65536, Time.seconds 20) ∧ out.2.state.Holds ⟨9⟩ ⟨65535⟩) (by decide +kernel)
  have hexact := (h out.1 out.2 hrun).1.2
  rw [Exact, hrecent] at hexact
  exact absurd (hexact.1 _ hholds) (by decide +kernel)

end Receiver

end Ns3.Olsr
