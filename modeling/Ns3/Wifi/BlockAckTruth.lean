import Ns3.Wifi.BlockAckCache

/-!
# A block ack tells the truth

The cache keeps its window and the entries in it, as long as the window does not end with the last sequence number
where its end is computed from its start: `((start + size) % 4096) - 1` is not a sequence number then. `Init` makes
a window without an end of it, and the loops of the other functions never meet it.

* `Remembers` — what the cache remembers: an entry in the window is set if and only if an MPDU with its sequence
  number was received since it came into the window.
* `remembers_step`, `remembers_run` — every event keeps this, and so does every run.
* `truthful_iff` — the block acks of a run tell the truth, and its loops end, exactly if the window never ends
  with the last sequence number where its end is computed.
-/

namespace Ns3

open Lib

namespace BlockAckCache

/-- The ends of the window are sequence numbers, and as far apart as its size says. -/
def Windowed (c : BlockAckCache) : Prop :=
  c.winStart < 4096 ∧ c.winEnd < 4096 ∧ Ring.ahead 4096 c.winStart c.winEnd = c.winSize - 1

/-- An MPDU with sequence number `s` was received since `s` last entered the window. -/
def ReceivedSince (s : ℕ) (tr : List (BlockAckCache × Event)) (c : BlockAckCache) : Prop :=
  ∃ (tr₁ : List (BlockAckCache × Event)) (c₁ : BlockAckCache) (tr₂ : List (BlockAckCache × Event)),
    tr = tr₁ ++ (c₁, .mpdu s) :: tr₂ ∧ (∀ x ∈ tr₂, x.1.IsInWindow s) ∧ c.IsInWindow s

/-- The block ack, sent and received, says what was received. -/
def TellsTruth (tr : List (BlockAckCache × Event)) (c : BlockAckCache) (h : CtrlBAckResponseHeader) : Prop :=
  ∀ h₀ : CtrlBAckResponseHeader, ∃ bytes h', h.serialize = some bytes ∧ h₀.deserialize.Reads bytes (some h') ∧
    ∀ s < 4096, h'.isPacketReceived s = true ↔ c.IsInWindow s ∧ ReceivedSince s tr c

/-- An event after the trace `tr` is handled as it should be: the window is one, the loops end, and a block ack tells
the truth. -/
def HandledRight (tr : List (BlockAckCache × Event)) (c : BlockAckCache) (e : Event) : Prop :=
  c.Windowed ∧ machine.exec c e ≠ none ∧
    ∀ tid h, e = .response tid → c.fillBlockAckBitmap (c.blockAck tid) = some h → TellsTruth tr c h

/-- The window does not end with the last sequence number where its end is computed from its start. -/
def AvoidsWrap (c : BlockAckCache) : Event → Prop
  | .mpdu _ => True
  | .request startingSeq =>
    QosUtilsIsOldPacket c.winStart startingSeq ∨ startingSeq = c.winStart ∨ (startingSeq + c.winSize) % 4096 ≠ 0
  | .response _ => (c.winStart + c.winSize) % 4096 ≠ 0

/-! ### The functions -/

variable {c : BlockAckCache}

theorem newWinEnd_eq {winStart : ℕ} (hsize : 1 ≤ c.winSize) (h : (winStart + c.winSize) % 4096 ≠ 0) :
    c.newWinEnd winStart = (winStart + (c.winSize - 1)) % 4096 := by
  rw [newWinEnd, uint16]
  omega

theorem newWinEnd_of_eq_zero {winStart : ℕ} (h : (winStart + c.winSize) % 4096 = 0) : c.newWinEnd winStart = 65535 := by
  rw [newWinEnd, h]
  rfl

theorem foldl_update_eq (visited : List ℕ) (bitmap : ℕ → UInt16) (i : ℕ) :
    visited.foldl (fun bitmap i => Function.update bitmap i 0) bitmap i = if i ∈ visited then 0 else bitmap i := by
  induction visited generalizing bitmap with
  | nil => rfl
  | cons j visited ih =>
    rw [List.foldl_cons, ih]
    by_cases hi : i ∈ visited
    · rw [if_pos hi, if_pos (List.mem_cons_of_mem j hi)]
    · by_cases hj : i = j
      · rw [if_neg hi, hj, Function.update_self, if_pos List.mem_cons_self]
      · rw [if_neg hi, Function.update_of_ne hj, if_neg (by simp [hi, hj])]

theorem resetPortionOfBitmap_eq_some {c c' : BlockAckCache} {start stop : ℕ} (hstart : start < 4096)
    (hstop : stop < 4096) (h : c.resetPortionOfBitmap start stop = some c') :
    c'.winStart = c.winStart ∧ c'.winSize = c.winSize ∧ c'.winEnd = c.winEnd ∧ ∀ i < 4096,
      c'.bitmap i = if Ring.ahead 4096 start i ≤ Ring.ahead 4096 start stop then 0 else c.bitmap i := by
  obtain ⟨visited, hvisited, rfl⟩ := Option.map_eq_some_iff.mp h
  refine ⟨rfl, rfl, rfl, fun i hi => (foldl_update_eq visited c.bitmap i).trans ?_⟩
  have hmem := Ring.mem_walk_iff (i := i) hstart hstop hvisited
  rw [and_iff_right hi] at hmem
  exact if_congr hmem rfl rfl

theorem resetPortionOfBitmap_ne_none {start stop : ℕ} (hstart : start < 4096) (hstop : stop < 4096) :
    c.resetPortionOfBitmap start stop ≠ none := by
  rw [resetPortionOfBitmap, Ring.walk_eq hstart hstop]
  exact Option.some_ne_none _

theorem resetPortionOfBitmap_eq_none {start stop : ℕ} (hstart : start < 4096) (hstop : 4096 ≤ stop) :
    c.resetPortionOfBitmap start stop = none := by
  rw [resetPortionOfBitmap, Ring.walk_eq_none hstart hstop, Option.map_none]

/-- What is added to the window's ends. The remainder is of a positive number as long as the window is one. -/
theorem delta_eq {winEnd seqNumber : ℕ} (hend : winEnd < 4096) (hseq : seqNumber < 4096) :
    uint16 (Int.tmod (seqNumber - winEnd + 4096) 4096) = Ring.ahead 4096 winEnd seqNumber := by
  rw [uint16, Int.tmod_eq_emod_of_nonneg (by omega), Ring.ahead]
  omega

variable {seqNumber : ℕ}

theorem moveTo_eq_some {c c' : BlockAckCache} (hend : c.winEnd < 4096) (hseq : seqNumber < 4096)
    (h : c.moveTo seqNumber = some c') :
    c'.winStart = (c.winStart + Ring.ahead 4096 c.winEnd seqNumber) % 4096 ∧ c'.winSize = c.winSize ∧
      c'.winEnd = seqNumber ∧ ∀ i < 4096, c'.bitmap i =
        if 1 < Ring.ahead 4096 c.winEnd seqNumber ∧ Ring.ahead 4096 ((c.winEnd + 1) % 4096) i ≤
          Ring.ahead 4096 ((c.winEnd + 1) % 4096) ((seqNumber + 4095) % 4096) then 0 else c.bitmap i := by
  rw [moveTo, delta_eq hend hseq] at h
  obtain ⟨c₁, hclear, rfl⟩ := Option.map_eq_some_iff.mp h
  split_ifs at hclear with hdelta
  · obtain ⟨hwin, hsize, -, hbitmap⟩ :=
      resetPortionOfBitmap_eq_some (Nat.mod_lt _ (by decide)) (Nat.mod_lt _ (by decide)) hclear
    refine ⟨by rw [hwin], hsize, rfl, fun i hi => (hbitmap i hi).trans ?_⟩
    exact if_congr (and_iff_right hdelta).symm rfl rfl
  · cases hclear
    exact ⟨rfl, rfl, rfl, fun i _ => (if_neg fun hcleared => hdelta hcleared.1).symm⟩

theorem moveTo_ne_none : c.moveTo seqNumber ≠ none := by
  intro h
  rw [moveTo, Option.map_eq_none_iff] at h
  split_ifs at h
  exact resetPortionOfBitmap_ne_none (Nat.mod_lt _ (by decide)) (Nat.mod_lt _ (by decide)) h

/-! ### What is remembered -/

variable {tr : List (BlockAckCache × Event)} {e : Event}

theorem receivedSince_snoc {s : ℕ} {c c' : BlockAckCache} :
    ReceivedSince s (tr ++ [(c, e)]) c' ↔ c'.IsInWindow s ∧ (e = .mpdu s ∨ ReceivedSince s tr c) := by
  constructor
  · rintro ⟨tr₁, c₁, tr₂, htr, hin, hwindow⟩
    refine ⟨hwindow, ?_⟩
    rcases List.eq_nil_or_concat tr₂ with rfl | ⟨tr₂, x, rfl⟩
    · obtain ⟨-, hlast⟩ := List.append_inj' htr rfl
      obtain ⟨-, rfl⟩ := Prod.mk.inj (List.cons.inj hlast).1
      exact .inl rfl
    · rw [List.concat_eq_append, ← List.cons_append, ← List.append_assoc] at htr
      obtain ⟨rfl, hlast⟩ := List.append_inj' htr rfl
      obtain rfl := (List.cons.inj hlast).1
      rw [List.concat_eq_append, List.forall_mem_append, List.forall_mem_singleton] at hin
      exact .inr ⟨tr₁, c₁, tr₂, rfl, hin.1, hin.2⟩
  · rintro ⟨hwindow, rfl | ⟨tr₁, c₁, tr₂, rfl, hin, hbefore⟩⟩
    · exact ⟨tr, c, [], rfl, fun _ hx => absurd hx List.not_mem_nil, hwindow⟩
    · refine ⟨tr₁, c₁, tr₂ ++ [(c, e)], by rw [List.append_assoc, List.cons_append], ?_, hwindow⟩
      rw [List.forall_mem_append, List.forall_mem_singleton]
      exact ⟨hin, hbefore⟩

/-- What the cache remembers after the trace `tr`. -/
structure Remembers (tr : List (BlockAckCache × Event)) (c : BlockAckCache) : Prop where
  windowed : c.Windowed
  /-- The size is as it was agreed on. -/
  size : 1 ≤ c.winSize ∧ c.winSize ≤ 64
  entry : ∀ s < 4096, c.bitmap s = 0 ∨ c.bitmap s = 1
  received : ∀ s < 4096, c.IsInWindow s → (c.bitmap s = 1 ↔ ReceivedSince s tr c)

/-- What an event does to the cache: the entries of the window are kept, those that come into it are cleared, and the
one that is received is set. -/
structure Moves (c : BlockAckCache) (e : Event) (c' : BlockAckCache) : Prop where
  windowed : c'.Windowed
  size : c'.winSize = c.winSize
  entry : ∀ s < 4096, c'.bitmap s = 0 ∨ c'.bitmap s = 1
  set : ∀ s < 4096, c'.IsInWindow s → (c'.bitmap s = 1 ↔ e = .mpdu s ∨ c.IsInWindow s ∧ c.bitmap s = 1)

theorem Remembers.move {c c' : BlockAckCache} (h : Remembers tr c) (hmove : Moves c e c') :
    Remembers (tr ++ [(c, e)]) c' where
  windowed := hmove.windowed
  size := hmove.size ▸ h.size
  entry := hmove.entry
  received := by
    intro s hs hin
    rw [hmove.set s hs hin, receivedSince_snoc, and_iff_right hin]
    refine or_congr_right ⟨fun hset => (h.received s hs hset.1).mp hset.2, fun hset => ?_⟩
    have hbefore : c.IsInWindow s := hset.choose_spec.choose_spec.choose_spec.2.2
    exact ⟨hbefore, (h.received s hs hbefore).mpr hset⟩

theorem Moves.refl (h : Remembers tr c) (he : ∀ s, c.IsInWindow s → e ≠ .mpdu s) : Moves c e c where
  windowed := h.windowed
  size := rfl
  entry := h.entry
  set := by
    intro s _ hin
    rw [or_iff_right (he s hin), and_iff_right hin]

/-- A window that moves `d` on, when the entries from `start` to `stop` are cleared, and those are the ones that come
into the window. -/
theorem Moves.of_clear {c c' : BlockAckCache} {d start stop startingSeq : ℕ} (h : Remembers tr c)
    (hwindowed : c'.Windowed) (hsize : c'.winSize = c.winSize) (hd : Ring.ahead 4096 c.winStart c'.winStart = d)
    (hlt : d < 2048) (hstart : start < 4096) (hstop : stop < 4096)
    (hfrom : Ring.ahead 4096 c.winStart start = max d c.winSize)
    (hto : Ring.ahead 4096 c.winStart stop = d + (c.winSize - 1)) (hpos : 0 < d)
    (hbitmap : ∀ i < 4096, c'.bitmap i =
      if Ring.ahead 4096 start i ≤ Ring.ahead 4096 start stop then 0 else c.bitmap i) :
    Moves c (.request startingSeq) c' where
  windowed := hwindowed
  size := hsize
  entry := by
    intro s hs
    rw [hbitmap s hs]
    split_ifs
    · exact .inl rfl
    · exact h.entry s hs
  set := by
    intro s hs hin
    have hsize' := h.size
    have hcleared := Ring.ahead_le_ahead_iff h.windowed.1 hstart hstop hs (by omega)
    have hlt : Ring.ahead 4096 c'.winStart s < c'.winSize := hin
    have hwindow := (Ring.ahead_lt_iff h.windowed.1 hwindowed.1 hs (by omega)).mp hlt
    rw [hbitmap s hs, or_iff_right Event.noConfusion, if_congr hcleared rfl rfl]
    by_cases hbefore : c.IsInWindow s
    · rw [if_neg (by rw [IsInWindow] at hbefore; omega), and_iff_right hbefore]
    · rw [if_pos (by rw [IsInWindow] at hbefore; omega)]
      simp [hbefore]

theorem moves_request {c c' : BlockAckCache} {startingSeq : ℕ} (h : Remembers tr c) (hseq : startingSeq < 4096)
    (hwrap : c.AvoidsWrap (.request startingSeq)) (hexec : c.updateWithBlockAckReq startingSeq = some c') :
    Moves c (.request startingSeq) c' := by
  obtain ⟨hstart, hend, hdist⟩ := h.windowed
  obtain ⟨hsize, hsize'⟩ := h.size
  have hmod : ∀ x, x % 4096 < 4096 := fun x => Nat.mod_lt x (by decide)
  rw [updateWithBlockAckReq] at hexec
  split_ifs at hexec with hold hin heq
  · cases hexec
    exact .refl h fun _ _ => Event.noConfusion
  · cases hexec
    exact .refl h fun _ _ => Event.noConfusion
  · have hwrap' : (startingSeq + c.winSize) % 4096 ≠ 0 := (hwrap.resolve_left hold).resolve_left heq
    have hpos : Ring.ahead 4096 c.winStart startingSeq ≠ 0 := by
      intro h0
      exact heq (Ring.ahead_inj hstart hseq hstart (h0.trans Ring.ahead_self.symm))
    rw [IsInWindow] at hin
    rw [newWinEnd_eq hsize hwrap'] at hexec
    obtain ⟨c₁, hreset, rfl⟩ := Option.map_eq_some_iff.mp hexec
    obtain ⟨-, hc₁, -, hbitmap⟩ := resetPortionOfBitmap_eq_some (hmod _) (hmod _) hreset
    refine .of_clear (d := Ring.ahead 4096 c.winStart startingSeq) h ⟨hseq, hmod _, ?_⟩ hc₁ rfl (by omega) (hmod _)
      (hmod _) ?_ ?_ (by omega) hbitmap
    · rw [hc₁, Ring.ahead_add hseq (by omega)]
    · rw [Ring.ahead_add_of_lt hstart hend (by omega)]
      omega
    · rw [Ring.ahead_add_of_lt hstart hseq (by omega)]
  · have hne : startingSeq ≠ c.winStart := by
      rintro rfl
      rw [IsInWindow, Ring.ahead_self] at hin
      omega
    have hwrap' : (startingSeq + c.winSize) % 4096 ≠ 0 := (hwrap.resolve_left hold).resolve_left hne
    rw [IsInWindow] at hin
    rw [QosUtilsIsOldPacket] at hold
    rw [newWinEnd_eq hsize hwrap'] at hexec
    obtain ⟨c₁, hreset, rfl⟩ := Option.map_eq_some_iff.mp hexec
    obtain ⟨-, hc₁, -, hbitmap⟩ := resetPortionOfBitmap_eq_some hseq (hmod _) hreset
    refine .of_clear (d := Ring.ahead 4096 c.winStart startingSeq) h ⟨hseq, hmod _, ?_⟩ hc₁ rfl (by omega) hseq
      (hmod _) (by omega) ?_ (by omega) hbitmap
    · rw [hc₁, Ring.ahead_add hseq (by omega)]
    · rw [Ring.ahead_add_of_lt hstart hseq (by omega)]

theorem or_one_eq {entry : UInt16} (h : entry = 0 ∨ entry = 1) : entry ||| (1 <<< UInt16.ofNat 0) = 1 := by
  rcases h with rfl | rfl <;> rfl

/-- The entry is set that an MPDU is for. -/
theorem Moves.of_set {c c₁ : BlockAckCache} (hwindowed : c₁.Windowed) (hsize : c₁.winSize = c.winSize)
    (hentry : ∀ s < 4096, c₁.bitmap s = 0 ∨ c₁.bitmap s = 1) (hseq : seqNumber < 4096)
    (hset : ∀ s < 4096, s ≠ seqNumber → c₁.IsInWindow s → (c₁.bitmap s = 1 ↔ c.IsInWindow s ∧ c.bitmap s = 1)) :
    Moves c (.mpdu seqNumber)
      { c₁ with bitmap := Function.update c₁.bitmap seqNumber (c₁.bitmap seqNumber ||| (1 <<< UInt16.ofNat 0)) } where
  windowed := hwindowed
  size := hsize
  entry := by
    intro s hs
    dsimp only
    by_cases heq : s = seqNumber
    · rw [heq, Function.update_self]
      exact .inr (or_one_eq (hentry seqNumber hseq))
    · rw [Function.update_of_ne heq]
      exact hentry s hs
  set := by
    intro s hs hin
    dsimp only
    by_cases heq : s = seqNumber
    · rw [heq, Function.update_self, or_one_eq (hentry seqNumber hseq)]
      simp
    · rw [Function.update_of_ne heq, hset s hs heq hin, or_iff_right]
      exact fun h => heq (Event.mpdu.inj h).symm

theorem moves_mpdu {c c' : BlockAckCache} (h : Remembers tr c) (hseq : seqNumber < 4096)
    (hexec : c.updateWithMpdu seqNumber 0 = some c') : Moves c (.mpdu seqNumber) c' := by
  obtain ⟨hstart, hend, hdist⟩ := h.windowed
  obtain ⟨hsize, hsize'⟩ := h.size
  rw [updateWithMpdu] at hexec
  split_ifs at hexec with hold hin
  · cases hexec
    refine .refl h fun s hs heq => ?_
    obtain rfl := Event.mpdu.inj heq
    rw [QosUtilsIsOldPacket] at hold
    rw [IsInWindow] at hs
    omega
  · cases hexec
    refine .of_set h.windowed rfl h.entry hseq fun s _ _ hs => ?_
    rw [and_iff_right hs]
  · obtain ⟨c₁, hmove, rfl⟩ := Option.map_eq_some_iff.mp hexec
    obtain ⟨hwin, hsize₁, hend₁, hbitmap⟩ := moveTo_eq_some hend hseq hmove
    rw [QosUtilsIsOldPacket] at hold
    rw [IsInWindow] at hin
    -- everything is measured from the old start of the window
    have hdelta := Ring.ahead_of_ahead hstart hend hseq
    rw [if_pos (by omega)] at hdelta
    have hfrom : Ring.ahead 4096 c.winStart ((c.winEnd + 1) % 4096) = c.winSize := by
      rw [Ring.ahead_add_of_lt hstart hend (by omega)]
      omega
    have hstart₁ : c₁.winStart < 4096 := hwin ▸ Nat.mod_lt _ (by decide)
    have hahead₁ : Ring.ahead 4096 c.winStart c₁.winStart = Ring.ahead 4096 c.winEnd seqNumber := by
      rw [hwin, Ring.ahead_add hstart (Ring.ahead_lt (by decide) _)]
    refine .of_set ⟨hstart₁, hend₁ ▸ hseq, ?_⟩ hsize₁ ?_ hseq ?_
    · rw [hend₁, hsize₁, Ring.ahead_of_ahead hstart hstart₁ hseq, if_pos (by omega)]
      omega
    · intro s hs
      rw [hbitmap s hs]
      split_ifs
      · exact .inl rfl
      · exact h.entry s hs
    · intro s hs hne hs₁
      have hlt : Ring.ahead 4096 c₁.winStart s < c₁.winSize := hs₁
      have hwindow := (Ring.ahead_lt_iff hstart hstart₁ hs (by omega)).mp hlt
      have hne' : Ring.ahead 4096 c.winStart s ≠ Ring.ahead 4096 c.winStart seqNumber :=
        fun heq => hne (Ring.ahead_inj hstart hs hseq heq)
      have hprev := Ring.ahead_pred hstart hseq (by omega)
      have hmod : ∀ x, x % 4096 < 4096 := fun x => Nat.mod_lt x (by decide)
      have hcleared := fun hle =>
        Ring.ahead_le_ahead_iff hstart (hmod (c.winEnd + 1)) (hmod (seqNumber + (4096 - 1))) hs hle
      rw [hfrom, hprev] at hcleared
      rw [hbitmap s hs]
      by_cases hbefore : c.IsInWindow s
      · rw [if_neg, and_iff_right hbefore]
        rintro ⟨hdelta', hbetween⟩
        have hle := ((hcleared (by omega)).mp hbetween).1
        rw [IsInWindow] at hbefore
        omega
      · rw [if_pos]
        · simp [hbefore]
        · rw [IsInWindow] at hbefore
          exact ⟨by omega, (hcleared (by omega)).mpr ⟨by omega, by omega⟩⟩

/-! ### Runs -/

variable {start size : ℕ}

theorem remembers_init (hstart : start < 4096) (hsize : 1 ≤ size ∧ size ≤ 64) (hwrap : (start + size) % 4096 ≠ 0) :
    Remembers [] (init start size) where
  windowed := by
    have hend : (init start size).winEnd = (start + (size - 1)) % 4096 := by
      simp only [init, if_pos hsize.2, uint16]
      omega
    refine ⟨hstart, hend ▸ Nat.mod_lt _ (by decide), ?_⟩
    rw [hend]
    simp only [init, if_pos hsize.2]
    exact Ring.ahead_add hstart (by omega)
  size := by
    simp only [init, if_pos hsize.2]
    exact hsize
  entry _ _ := .inl rfl
  received := by
    intro s _ _
    refine iff_of_false (by decide : (0 : UInt16) ≠ 1) ?_
    rintro ⟨tr₁, c₁, tr₂, htr, -⟩
    exact absurd htr (by simp)

theorem remembers_step {c c' : BlockAckCache} (h : Remembers tr c) (hwrap : c.AvoidsWrap e)
    (hstep : machine.Step c e c') : Remembers (tr ++ [(c, e)]) c' := by
  obtain ⟨henabled, hexec⟩ := hstep
  cases e with
  | mpdu seqNumber => exact h.move (moves_mpdu h henabled hexec)
  | request startingSeq => exact h.move (moves_request h henabled hwrap hexec)
  | response tid =>
    obtain ⟨-, -, rfl⟩ := Option.map_eq_some_iff.mp hexec
    exact h.move (.refl h fun _ _ => Event.noConfusion)

theorem remembers_run (hstart : start < 4096) (hsize : 1 ≤ size ∧ size ≤ 64) (hwrap : (start + size) % 4096 ≠ 0)
    (hrun : machine.Run (init start size) tr c) (hmeets : Machine.Meets AvoidsWrap tr) : Remembers tr c := by
  induction hrun with
  | nil => exact remembers_init hstart hsize hwrap
  | snoc _ hstep ih =>
    obtain ⟨hbefore, hlast⟩ := Machine.meets_snoc.mp hmeets
    exact remembers_step (ih hbefore) hlast hstep

/-! ### Block acks -/

theorem fillEnd_eq {winStart winSize : ℕ} (hsize : 1 ≤ winSize) (h : (winStart + winSize) % 4096 ≠ 0) :
    uint32 (((winStart + winSize) % 4096 : ℕ) - 1) = (winStart + (winSize - 1)) % 4096 := by
  rw [uint32]
  omega

/-- The loop of `FillBlockAckBitmap`: what is set are the packets of the window that have an entry. -/
theorem foldl_setReceivedPacket (bitmap : ℕ → UInt16) (visited : List ℕ) {h : CtrlBAckResponseHeader}
    (hcompressed : h.compressed = true) (hstart : h.startingSeq < 4096)
    (hvisited : ∀ i ∈ visited, i < 4096 ∧ h.IsInBitmap i) :
    let h' := visited.foldl (fun h i => if bitmap i = 1 then h.setReceivedPacket i else h) h
    h'.compressed = true ∧ h'.startingSeq = h.startingSeq ∧ h'.multiTid = h.multiTid ∧ ∀ k,
      h'.compressedBitmap.toNat.testBit k = true ↔ h.compressedBitmap.toNat.testBit k = true ∨
        ∃ i ∈ visited, bitmap i = 1 ∧ Ring.ahead 4096 h.startingSeq i = k := by
  induction visited generalizing h with
  | nil => exact ⟨hcompressed, rfl, rfl, fun k => by simp⟩
  | cons j visited ih =>
    obtain ⟨⟨hj, hin⟩, hrest⟩ := List.forall_mem_cons.mp hvisited
    rw [List.foldl_cons]
    by_cases hentry : bitmap j = 1
    · rw [if_pos hentry]
      have hnext := ih (h := h.setReceivedPacket j) (by simpa using hcompressed) (by simpa using hstart)
        (by simpa [CtrlBAckResponseHeader.IsInBitmap] using hrest)
      rw [CtrlBAckResponseHeader.startingSeq_setReceivedPacket, CtrlBAckResponseHeader.multiTid_setReceivedPacket]
        at hnext
      obtain ⟨hcomp, hseq, hmulti, hbits⟩ := hnext
      refine ⟨hcomp, hseq, hmulti, fun k => ?_⟩
      rw [hbits k, CtrlBAckResponseHeader.testBit_setReceivedPacket hcompressed hstart hj hin]
      simp [hentry, or_assoc]
    · rw [if_neg hentry]
      obtain ⟨hcomp, hseq, hmulti, hbits⟩ := ih hcompressed hstart hrest
      refine ⟨hcomp, hseq, hmulti, fun k => ?_⟩
      rw [hbits k]
      simp [hentry]

theorem tellsTruth {tid : ℕ} {h : CtrlBAckResponseHeader} (hc : Remembers tr c)
    (hwrap : (c.winStart + c.winSize) % 4096 ≠ 0) (hfill : c.fillBlockAckBitmap (c.blockAck tid) = some h) :
    TellsTruth tr c h := by
  obtain ⟨hstart, -, -⟩ := hc.windowed
  obtain ⟨hsize, hsize'⟩ := hc.size
  obtain ⟨visited, hwalk, hfold⟩ := Option.map_eq_some_iff.mp hfill
  change Ring.walk 4096 c.winStart (uint32 (((c.winStart + c.winSize) % 4096 : ℕ) - 1)) = some visited at hwalk
  rw [fillEnd_eq hsize hwrap] at hwalk
  have hmem : ∀ i, i ∈ visited ↔ i < 4096 ∧ c.IsInWindow i := by
    intro i
    rw [Ring.mem_walk_iff hstart (Nat.mod_lt _ (by decide)) hwalk, Ring.ahead_add hstart (by omega), IsInWindow]
    exact and_congr_right fun _ => ⟨fun h => by omega, fun h => by omega⟩
  have hvisited : ∀ i ∈ visited, i < 4096 ∧ (c.blockAck tid).IsInBitmap i := by
    intro i hi
    obtain ⟨hlt, hin⟩ := (hmem i).mp hi
    exact ⟨hlt, Nat.lt_of_lt_of_le hin hsize'⟩
  obtain ⟨hcompressed, hseq, hmulti, hbits⟩ := foldl_setReceivedPacket c.bitmap visited rfl hstart hvisited
  rw [hfold] at hcompressed hseq hmulti hbits
  have hseq' : h.startingSeq = c.winStart := hseq
  intro h₀
  obtain ⟨bytes, hserialize, hreads⟩ :=
    CtrlBAckResponseHeader.reads_deserialize h₀ hmulti hcompressed (hseq' ▸ hstart)
  refine ⟨bytes, _, hserialize, hreads, fun s hs => ?_⟩
  have hset : h.compressedBitmap.toNat.testBit (Ring.ahead 4096 c.winStart s) = true ↔
      c.IsInWindow s ∧ c.bitmap s = 1 := by
    rw [hbits]
    constructor
    · rintro (hzero | ⟨i, hi, hentry, hahead⟩)
      · exact absurd hzero (by simp [blockAck, CtrlBAckResponseHeader.new, CtrlBAckResponseHeader.setType])
      · obtain ⟨hlt, hin⟩ := (hmem i).mp hi
        obtain rfl := Ring.ahead_inj hstart hlt hs hahead
        exact ⟨hin, hentry⟩
    · rintro ⟨hin, hentry⟩
      exact .inr ⟨s, (hmem s).mpr ⟨hs, hin⟩, hentry, rfl⟩
  have hiff := CtrlBAckResponseHeader.isPacketReceived_iff
    (h := { h with tidInfo := h.tidInfo % 16, bitmap := h₀.bitmap }) hcompressed (hseq' ▸ hstart) hs
  rw [hiff, CtrlBAckResponseHeader.IsInBitmap, hseq', hset]
  constructor
  · rintro ⟨-, hin, hentry⟩
    exact ⟨hin, (hc.received s hs hin).mp hentry⟩
  · rintro ⟨hin, hreceived⟩
    exact ⟨Nat.lt_of_lt_of_le hin hsize', hin, (hc.received s hs hin).mpr hreceived⟩

/-- The loops of an event end exactly if it avoids the wrap. -/
theorem exec_ne_none_iff (hstart : c.winStart < 4096) (hsize : 1 ≤ c.winSize) (he : machine.enabled c e) :
    machine.exec c e ≠ none ↔ c.AvoidsWrap e := by
  have hmod : ∀ x, x % 4096 < 4096 := fun x => Nat.mod_lt x (by decide)
  cases e with
  | mpdu seqNumber =>
    refine iff_of_true ?_ trivial
    change c.updateWithMpdu seqNumber 0 ≠ none
    rw [updateWithMpdu]
    split_ifs
    · exact Option.some_ne_none c
    · exact Option.some_ne_none _
    · rw [Ne, Option.map_eq_none_iff]
      exact moveTo_ne_none
  | request startingSeq =>
    change c.updateWithBlockAckReq startingSeq ≠ none ↔ _ ∨ _ ∨ _
    rw [updateWithBlockAckReq]
    have hseq : startingSeq < 4096 := he
    by_cases hwrap : (startingSeq + c.winSize) % 4096 = 0
    · rw [newWinEnd_of_eq_zero hwrap, resetPortionOfBitmap_eq_none (hmod _) (by decide),
        resetPortionOfBitmap_eq_none hseq (by decide)]
      split_ifs with hold hin heq
      · simp [hold]
      · simp [heq]
      · simp [hold, heq, hwrap]
      · have hne : startingSeq ≠ c.winStart := by
          rintro rfl
          rw [IsInWindow, Ring.ahead_self] at hin
          omega
        simp [hold, hne, hwrap]
    · rw [newWinEnd_eq hsize hwrap]
      refine iff_of_true ?_ (.inr (.inr hwrap))
      split_ifs
      · exact Option.some_ne_none c
      · exact Option.some_ne_none c
      · rw [Ne, Option.map_eq_none_iff]
        exact resetPortionOfBitmap_ne_none (hmod _) (hmod _)
      · rw [Ne, Option.map_eq_none_iff]
        exact resetPortionOfBitmap_ne_none hseq (hmod _)
  | response tid =>
    change (c.fillBlockAckBitmap (c.blockAck tid)).map (fun _ => c) ≠ none ↔ _
    rw [Ne, Option.map_eq_none_iff, fillBlockAckBitmap, Option.map_eq_none_iff]
    change ¬ Ring.walk 4096 c.winStart (uint32 (((c.winStart + c.winSize) % 4096 : ℕ) - 1)) = none ↔
      (c.winStart + c.winSize) % 4096 ≠ 0
    by_cases hwrap : (c.winStart + c.winSize) % 4096 = 0
    · rw [hwrap, Ring.walk_eq_none hstart (by decide)]
      simp
    · rw [fillEnd_eq hsize hwrap, Ring.walk_eq hstart (hmod _)]
      simp [hwrap]

/-- A window of `Init` is one exactly if it does not end with the last sequence number. -/
theorem windowed_init_iff (hstart : start < 4096) (hsize : 1 ≤ size ∧ size ≤ 64) :
    (init start size).Windowed ↔ (start + size) % 4096 ≠ 0 := by
  refine ⟨fun h hwrap => ?_, fun hwrap => (remembers_init hstart hsize hwrap).windowed⟩
  have hend : (init start size).winEnd = 65535 := by
    simp only [init, if_pos hsize.2, hwrap]
    rfl
  have hlt := h.2.1
  rw [hend] at hlt
  exact absurd hlt (by decide)

theorem handledRight_iff (h : Remembers tr c) (he : machine.enabled c e) : HandledRight tr c e ↔ c.AvoidsWrap e := by
  have hexec := exec_ne_none_iff h.windowed.1 h.size.1 he
  constructor
  · rintro ⟨-, hne, -⟩
    exact hexec.mp hne
  · intro hwrap
    refine ⟨h.windowed, hexec.mpr hwrap, ?_⟩
    rintro tid filled rfl hfill
    exact tellsTruth h hwrap hfill

theorem meets_of_run (hstart : start < 4096) (hsize : 1 ≤ size ∧ size ≤ 64) (hwrap : (start + size) % 4096 ≠ 0)
    (hrun : machine.Run (init start size) tr c) : Machine.Meets AvoidsWrap tr := by
  induction hrun with
  | nil => exact fun x hx => absurd hx List.not_mem_nil
  | snoc hrun hstep ih =>
    have h := remembers_run hstart hsize hwrap hrun ih
    refine Machine.meets_snoc.mpr ⟨ih, (exec_ne_none_iff h.windowed.1 h.size.1 hstep.1).mp ?_⟩
    rw [hstep.2]
    exact Option.some_ne_none _

/-- The cache handles what happens to it right exactly if no end of a window is computed where it is the last sequence
number. -/
theorem truthful_iff {start size : ℕ} {tr : List (BlockAckCache × Event)} {c : BlockAckCache} {e : Event}
    (hstart : start < 4096) (hsize : 1 ≤ size ∧ size ≤ 64) (hrun : machine.Run (init start size) tr c)
    (he : machine.enabled c e) :
    (∀ tr₁ c₁ e₁ tr₂, tr ++ [(c, e)] = tr₁ ++ (c₁, e₁) :: tr₂ → HandledRight tr₁ c₁ e₁) ↔
      (start + size) % 4096 ≠ 0 ∧ Machine.Meets AvoidsWrap (tr ++ [(c, e)]) := by
  constructor
  · intro hright
    have hwrap : (start + size) % 4096 ≠ 0 := by
      obtain ⟨x, rest, hx⟩ :=
        List.exists_cons_of_ne_nil (List.append_ne_nil_of_right_ne_nil tr (by simp : [(c, e)] ≠ []))
      have hnil : machine.Run (init start size) [] x.1 := (hrun.split he (hx.trans (List.nil_append _).symm)).1
      exact (windowed_init_iff hstart hsize).mp (hnil.eq_of_nil ▸ (hright [] x.1 x.2 rest hx).1)
    refine ⟨hwrap, ?_⟩
    have hbefore := meets_of_run hstart hsize hwrap hrun
    exact Machine.meets_snoc.mpr
      ⟨hbefore, (handledRight_iff (remembers_run hstart hsize hwrap hrun hbefore) he).mp (hright tr c e [] rfl)⟩
  · rintro ⟨hwrap, hmeets⟩ tr₁ c₁ e₁ tr₂ htr
    obtain ⟨hrun₁, he₁⟩ := hrun.split he htr
    rw [htr] at hmeets
    have hmeets₁ : Machine.Meets AvoidsWrap tr₁ := fun x hx => hmeets x (List.mem_append_left _ hx)
    have hlast : c₁.AvoidsWrap e₁ := hmeets (c₁, e₁) (List.mem_append_right _ List.mem_cons_self)
    exact (handledRight_iff (remembers_run hstart hsize hwrap hrun₁ hmeets₁) he₁).mpr hlast

theorem truthful_mpdu : HandledRight [] (init 0 64) (.mpdu 5) := by
  have henabled : machine.enabled (init 0 64) (.mpdu 5) := by
    change 5 < 4096
    decide
  have hmeets : Machine.Meets AvoidsWrap ([] ++ [(init 0 64, Event.mpdu 5)]) := by simp [Machine.Meets, AvoidsWrap]
  exact (truthful_iff (by decide) (by decide) .nil henabled).mpr ⟨by decide, hmeets⟩ [] _ _ [] rfl

/-- A request that moves the window to the last sequence numbers: `ResetPortionOfBitmap` never ends. -/
theorem loops_forever : machine.enabled (init 3000 64) (.request 4032) ∧
    machine.exec (init 3000 64) (.request 4032) = none ∧ ¬ HandledRight [] (init 3000 64) (.request 4032) := by
  have henabled : machine.enabled (init 3000 64) (.request 4032) := by
    change 4032 < 4096
    decide
  have hwrap : ¬ (init 3000 64).AvoidsWrap (.request 4032) := by
    change ¬ (QosUtilsIsOldPacket 3000 4032 ∨ 4032 = 3000 ∨ (4032 + 64) % 4096 ≠ 0)
    decide
  have hexec : machine.exec (init 3000 64) (.request 4032) = none :=
    not_not.mp fun hne => hwrap ((exec_ne_none_iff (by decide) (by decide) henabled).mp hne)
  exact ⟨henabled, hexec, fun hright => hright.2.1 hexec⟩

end BlockAckCache

end Ns3
