import Ns3.Internet.Ipv4Cut
import Ns3.Internet.Ipv4Isolation

/-!
# Reassembly of IPv4 packets

The fragments of a packet come in any order and any number of times.

* `Gathered` — what the receiver has of them; `isEntire_iff` says when it has all, `getPacket_eq` what it makes of it.
* `reassembles_iff` — the packet is put together again exactly when all its fragments have come, if and only if
  the last of several fragments was never fragmented.
-/

namespace Ns3

open Lib

namespace Ipv4L3Protocol

namespace Fragments

theorem insert_eq (fragment : List UInt8) (fragmentOffset : ℕ) (l : List (List UInt8 × ℕ)) :
    insert fragment fragmentOffset l = Pieces.insert (fragment, fragmentOffset) l := by
  induction l with
  | nil => rfl
  | cons it rest ih => rw [insert, Pieces.insert, ih]

theorem contiguous_iff {b : ℕ} {l : List (List UInt8 × ℕ)} (h : ∀ q ∈ l, Pieces.stop q < 2 ^ 16) :
    contiguous b l = true ↔ Pieces.Gapless b l := by
  induction l generalizing b with
  | nil => exact iff_of_true rfl trivial
  | cons it rest ih =>
    obtain ⟨hit, hrest⟩ := List.forall_mem_cons.mp h
    rw [Pieces.stop] at hit
    have hstop : (it.1.length + it.2) % 2 ^ 16 = Pieces.stop it := by
      rw [Nat.add_comm, Nat.mod_eq_of_lt hit, Pieces.stop]
    rw [contiguous, Pieces.Gapless, hstop]
    split_ifs with hlt
    · exact iff_of_false not_false fun h => Nat.not_le.mpr hlt h.1
    · rw [ih hrest, and_iff_right (Nat.le_of_not_lt hlt)]

theorem assemble_eq {p : List UInt8} {l : List (List UInt8 × ℕ)} (hp : p.length < 2 ^ 16)
    (h : ∀ q ∈ l, Pieces.stop q < 2 ^ 16) : assemble p p.length l = Pieces.join p l := by
  induction l generalizing p with
  | nil => rfl
  | cons it rest ih =>
    obtain ⟨hit, hrest⟩ := List.forall_mem_cons.mp h
    rw [Pieces.stop] at hit
    have hnext : (if p.length > it.2 then
        if it.1.length > p.length - it.2 then p ++ it.1.drop (p.length - it.2) else p
      else p ++ it.1) = p ++ it.1.drop (p.length - it.2) := by
      split_ifs with hover hlong
      · rfl
      · rw [List.drop_eq_nil_of_le (Nat.le_of_not_lt hlong), List.append_nil]
      · rw [Nat.sub_eq_zero_of_le (Nat.le_of_not_lt hover), List.drop_zero]
    have hlength : (p ++ it.1.drop (p.length - it.2)).length < 2 ^ 16 := by
      rw [List.length_append, List.length_drop]
      omega
    rw [assemble, Pieces.join]
    rw [hnext, Nat.mod_eq_of_lt hlength, ih hlength hrest]

end Fragments

/-- What the receiver has of the fragments that came, the last one first. -/
structure Gathered (fragments : Fragments) (since : List Ipv4Packet) : Prop where
  sorted : Pieces.Sorted fragments.fragments
  mem_iff : ∀ q, q ∈ fragments.fragments ↔ ∃ a ∈ since, q = a.piece
  /-- The flag is that of the last one in order. -/
  last : ∀ q, fragments.fragments.getLast? = some q →
    ∃ a ∈ since, q = a.piece ∧ fragments.moreFragment = a.header.moreFragments

theorem gathered_new : Gathered .new [] where
  sorted := List.Pairwise.nil
  mem_iff q := by simp [Fragments.new]
  last q hq := by simp [Fragments.new] at hq

theorem Gathered.addFragment {fragments : Fragments} {since : List Ipv4Packet} (h : Gathered fragments since)
    (a : Ipv4Packet) :
    Gathered (fragments.addFragment a.payload a.header.fragmentOffset (!a.header.isLastFragment)) (a :: since) where
  sorted := by
    rw [Fragments.addFragment, Fragments.insert_eq]
    exact Pieces.sorted_insert h.sorted
  mem_iff q := by
    rw [Fragments.addFragment, Fragments.insert_eq, Pieces.mem_insert_iff, h.mem_iff]
    simp [Ipv4Packet.piece]
  last q hq := by
    rw [Fragments.addFragment, Fragments.insert_eq] at hq
    by_cases hall : ∀ r ∈ fragments.fragments, r.2 ≤ a.header.fragmentOffset
    · refine ⟨a, List.mem_cons_self, ?_, ?_⟩
      · rw [Pieces.insert_of_forall_le hall, List.getLast?_concat] at hq
        exact (Option.some.inj hq).symm
      · rw [Fragments.addFragment, if_pos (by simpa using hall)]
        exact Bool.not_not _
    · rw [Pieces.getLast?_insert hall] at hq
      obtain ⟨b, hb, hqb, hmore⟩ := h.last q hq
      refine ⟨b, List.mem_cons_of_mem a hb, hqb, ?_⟩
      rw [Fragments.addFragment, if_neg (by simpa using hall)]
      exact hmore

section Receiver

variable {payload : List UInt8} {fs since : List Ipv4Packet} {fragments : Fragments}

/-- The fragments of the packet that came reach its end without gaps. -/
theorem Gathered.gapless (h : Gathered fragments since) (hcut : Cut payload 0 false fs) (hsub : ∀ a ∈ since, a ∈ fs)
    (hall : fs ⊆ since) : Pieces.Gapless 0 fragments.fragments := by
  refine (Pieces.gapless_iff h.sorted fun q hq hnil => ?_).mpr fun i _ ⟨q, hq, hlt⟩ => ?_
  · obtain ⟨a, ha, rfl⟩ := (h.mem_iff q).mp hq
    by_cases hp : payload = []
    · have hstop := hcut.stop_le (hsub a ha)
      rw [hp, Ipv4Packet.stop] at hstop
      exact (Nat.le_add_right _ _).trans hstop
    · exact absurd hnil (hcut.forall_ne_nil hp (hsub a ha))
  · obtain ⟨a, ha, rfl⟩ := (h.mem_iff q).mp hq
    obtain ⟨g, hg, hle, hlt'⟩ := hcut.exists_covering (Nat.zero_le i) (lt_of_lt_of_le hlt (hcut.stop_le (hsub a ha)))
    exact ⟨g.piece, (h.mem_iff _).mpr ⟨g, hall hg, rfl⟩, hle, hlt'⟩

/-- The receiver finds that it has the whole packet exactly when all its fragments have come. -/
theorem Gathered.isEntire_iff (h : Gathered fragments since) (hcut : Cut payload 0 false fs)
    (hlength : payload.length < 2 ^ 16) (hsub : ∀ a ∈ since, a ∈ fs) (hne : since ≠ []) :
    fragments.isEntire = true ↔ fs ⊆ since := by
  have hstop : ∀ q ∈ fragments.fragments, Pieces.stop q < 2 ^ 16 := by
    intro q hq
    obtain ⟨a, ha, rfl⟩ := (h.mem_iff q).mp hq
    exact lt_of_le_of_lt (hcut.of (hsub a ha)).1 hlength
  have hnonempty : fragments.fragments ≠ [] := by
    obtain ⟨a, ha⟩ := List.exists_mem_of_ne_nil since hne
    exact List.ne_nil_of_mem ((h.mem_iff a.piece).mpr ⟨a, ha, rfl⟩)
  obtain ⟨q, hq⟩ : ∃ q, fragments.fragments.getLast? = some q := ⟨_, List.getLast?_eq_some_getLast hnonempty⟩
  obtain ⟨a, ha, rfl, hmore⟩ := h.last q hq
  have hlast := hcut.moreFragments_eq_false_iff (hsub a ha)
  rw [Fragments.isEntire, Bool.and_eq_true, Bool.and_eq_true, Bool.not_eq_true', decide_eq_true_iff,
    and_iff_left hnonempty, Fragments.contiguous_iff hstop, hmore, hlast, Nat.zero_add]
  constructor
  · rintro ⟨hend, hgapless⟩ g hg
    by_cases hp : payload = []
    · subst hp
      obtain ⟨x, rfl⟩ := hcut.eq_singleton
      rw [List.mem_singleton.mp hg, ← List.mem_singleton.mp (hsub a ha)]
      exact ha
    · -- what covers the first octet of `g` is `g` itself
      have hpos := List.length_pos_iff.mpr (hcut.forall_ne_nil hp hg)
      have hlt : g.header.fragmentOffset < a.stop := by
        have hle := hcut.stop_le hg
        rw [Ipv4Packet.stop] at hle
        omega
      obtain ⟨r, hr, hle, hcov⟩ := (Pieces.gapless_iff h.sorted fun q hq hnil => by
        obtain ⟨b, hb, rfl⟩ := (h.mem_iff q).mp hq
        exact absurd hnil (hcut.forall_ne_nil hp (hsub b hb))).mp hgapless _ (Nat.zero_le _) ⟨_, (h.mem_iff _).mpr
          ⟨a, ha, rfl⟩, hlt⟩
      obtain ⟨b, hb, rfl⟩ := (h.mem_iff r).mp hr
      rcases hcut.eq_or_stop_le (hsub b hb) hg hle with rfl | hbehind
      · exact hb
      · exact absurd hcov (Nat.not_lt.mpr hbehind)
  · intro hall
    refine ⟨?_, h.gapless hcut hsub hall⟩
    obtain ⟨z, hz, -, hzstop⟩ := hcut.exists_last
    rw [Nat.zero_add] at hzstop
    have hle : z.header.fragmentOffset ≤ a.header.fragmentOffset :=
      h.sorted.le_getLast? ((h.mem_iff z.piece).mpr ⟨z, hall hz, rfl⟩) hq
    rcases hcut.eq_or_stop_le hz (hsub a ha) hle with rfl | hbehind
    · exact hzstop
    · have hle' := hcut.stop_le (hsub a ha)
      rw [Ipv4Packet.stop] at hle' ⊢
      omega

/-- What the receiver makes of all the fragments of a packet is its payload. -/
theorem Gathered.getPacket_eq (h : Gathered fragments since) (hcut : Cut payload 0 false fs)
    (hlength : payload.length < 2 ^ 16) (hsub : ∀ a ∈ since, a ∈ fs) (hall : fs ⊆ since) :
    fragments.getPacket = payload := by
  have hof : ∀ q ∈ fragments.fragments, Pieces.Of payload q := by
    intro q hq
    obtain ⟨a, ha, rfl⟩ := (h.mem_iff q).mp hq
    exact hcut.of (hsub a ha)
  obtain ⟨z, hz, -, hzstop⟩ := hcut.exists_last
  have hreach : Pieces.reach 0 fragments.fragments = payload.length := by
    refine le_antisymm (Pieces.reach_le (Nat.zero_le _) fun q hq => (hof q hq).1) ?_
    refine le_of_eq_of_le ?_ (Pieces.stop_le_reach ((h.mem_iff z.piece).mpr ⟨z, hall hz, rfl⟩))
    exact ((Nat.zero_add _).symm.trans hzstop.symm)
  have hjoin := Pieces.join_eq hof (Nat.zero_le _) (h.gapless hcut hsub hall)
  rw [List.take_zero, hreach, List.take_length] at hjoin
  rw [Fragments.getPacket, ← hjoin]
  exact Fragments.assemble_eq (by decide) fun q hq => lt_of_le_of_lt (hof q hq).1 hlength

end Receiver

/-! ### What is delivered -/

/-- What `ProcessFragment` makes of fragments, one after the other. -/
def deliveries (w : Reassembly) : List Ipv4Packet → List (Option (List UInt8))
  | [] => []
  | a :: as =>
    let (complete, w) := w.processFragment a.payload a.header
    complete :: deliveries w as

/-- What should be made of the fragments `fs` of a payload: it is complete when all of them have come since
the last time it was. -/
def expected (payload : List UInt8) (fs since : List Ipv4Packet) : List Ipv4Packet → List (Option (List UInt8))
  | [] => []
  | a :: as =>
    if fs ⊆ a :: since then some payload :: expected payload fs [] as
    else none :: expected payload fs (a :: since) as

/-- In whatever order and number they come, the fragments of a payload are put together when all have come. -/
def Reassembles (payload : List UInt8) (fs : List Ipv4Packet) : Prop :=
  ∀ as : List Ipv4Packet, (∀ a ∈ as, a ∈ fs) → deliveries .new as = expected payload fs [] as

variable {payload : List UInt8} {fs since : List Ipv4Packet} {as : List Ipv4Packet}

/-- When a packet is cut, its fragments are put together. -/
theorem deliveries_eq {pending : Option (Ipv4Header × Fragments)} (hcut : Cut payload 0 false fs)
    (hlength : payload.length < 2 ^ 16) (h : Gathered ((pending.map Prod.snd).getD .new) since)
    (hsub : ∀ a ∈ since, a ∈ fs) (has : ∀ a ∈ as, a ∈ fs) :
    deliveries (Reassembler.ofPending pending) as = expected payload fs since as := by
  induction as generalizing pending since with
  | nil => rfl
  | cons a as ih =>
    obtain ⟨ha, has⟩ := List.forall_mem_cons.mp has
    have hgathered := h.addFragment a
    have hsub' := List.forall_mem_cons.mpr ⟨ha, hsub⟩
    have hentire := hgathered.isEntire_iff hcut hlength hsub' (List.cons_ne_nil a since)
    rw [deliveries, Reassembler.processFragment_ofPending, expected, Reassembler.receive]
    dsimp only
    by_cases hall : fs ⊆ a :: since
    · rw [if_pos (hentire.mpr hall), if_pos hall, hgathered.getPacket_eq hcut hlength hsub' hall]
      refine congrArg _ (ih ?_ (fun b hb => absurd hb List.not_mem_nil) has)
      exact gathered_new
    · rw [if_neg (mt hentire.mp hall), if_neg hall]
      refine congrArg _ (ih ?_ hsub' has)
      exact hgathered

/-- When all the fragments come, the payload should be put together. -/
theorem mem_expected (hne : as ≠ []) (hall : fs ⊆ since ++ as) : some payload ∈ expected payload fs since as := by
  induction as generalizing since with
  | nil => exact absurd rfl hne
  | cons a as ih =>
    rw [expected]
    split_ifs with hnow
    · exact List.mem_cons_self
    · refine List.mem_cons_of_mem _ (ih ?_ fun f hf => ?_)
      · rintro rfl
        exact hnow fun f hf => by simpa [or_comm] using hall hf
      · have := hall hf
        simp only [List.mem_append, List.mem_cons] at this ⊢
        tauto

/-- Nothing is put together that is longer than the fragments reach. -/
theorem length_delivery_lt {pending : Option (Ipv4Header × Fragments)}
    (h : Gathered ((pending.map Prod.snd).getD .new) since) (hshort : ∀ a ∈ since, a.stop < payload.length)
    (has : ∀ a ∈ as, a.stop < payload.length) (hlength : payload.length < 2 ^ 16) :
    ∀ p, some p ∈ deliveries (Reassembler.ofPending pending) as → p.length < payload.length := by
  induction as generalizing pending since with
  | nil => exact fun p hp => absurd hp List.not_mem_nil
  | cons a as ih =>
    obtain ⟨ha, has⟩ := List.forall_mem_cons.mp has
    have hgathered := h.addFragment a
    have hshort' : ∀ b ∈ a :: since, b.stop < payload.length := List.forall_mem_cons.mpr ⟨ha, hshort⟩
    intro p hp
    rw [deliveries, Reassembler.processFragment_ofPending, Reassembler.receive] at hp
    dsimp only at hp
    split_ifs at hp
    · rcases List.mem_cons.mp hp with hp | hp
      · have hstop : ∀ q ∈ (((pending.map Prod.snd).getD .new).addFragment a.payload a.header.fragmentOffset
            (!a.header.isLastFragment)).fragments, Pieces.stop q ≤ payload.length - 1 := by
          intro q hq
          obtain ⟨b, hb, rfl⟩ := (hgathered.mem_iff q).mp hq
          exact Nat.le_sub_one_of_lt (hshort' b hb)
        rw [Option.some.inj hp, Fragments.getPacket]
        have hjoin : Fragments.assemble [] 0 _ = _ :=
          Fragments.assemble_eq (by decide) fun q hq => lt_of_le_of_lt ((hstop q hq).trans (Nat.sub_le _ _)) hlength
        rw [hjoin]
        have hle := Pieces.length_join_le (List.length_nil.trans_le (Nat.zero_le _)) hstop
        rw [Ipv4Packet.stop] at ha
        omega
      · refine ih ?_ (fun b hb => absurd hb List.not_mem_nil) has p hp
        exact gathered_new
    · rcases List.mem_cons.mp hp with hp | hp
      · exact absurd hp (by simp)
      · refine ih ?_ hshort' has p hp
        exact hgathered

open Fragmentation in
/-- Fragments of fragments are put together if and only if a last one with an offset was never fragmented; and
`DoFragmentation` always ends. -/
theorem reassembles_iff {packet : Ipv4Packet} {tr : List (List Ipv4Packet × Event)}
    (hoffset : packet.header.fragmentOffset = 0) (hmore : packet.header.moreFragments = false)
    (hlength : packet.payload.length < 2 ^ 16) (hrun : machine.Run [packet] tr fs) :
    (Reassembles packet.payload fs ↔ Machine.Meets Keeps tr) ∧
      ∀ e, machine.enabled fs e → ∃ fs', machine.Step fs e fs' := by
  obtain ⟨hfits, hcases⟩ := run_cases hoffset hmore hlength hrun
  refine ⟨?_, fun e he => exists_step he hfits⟩
  have hnone : Gathered (((none : Option (Ipv4Header × Fragments)).map Prod.snd).getD .new) [] := gathered_new
  rcases hcases with ⟨hmeets, hcut⟩ | ⟨hmeets, hne, hshort⟩
  · refine iff_of_true (fun as has => ?_) hmeets
    exact deliveries_eq hcut hlength hnone (fun b hb => absurd hb List.not_mem_nil) has
  · refine iff_of_false (fun h => ?_) hmeets
    have hmem : some packet.payload ∈ deliveries .new fs := h fs (fun _ => id) ▸ mem_expected hne (fun _ => id)
    have hlt := length_delivery_lt hnone (fun b hb => absurd hb List.not_mem_nil) hshort hlength _ hmem
    exact absurd hlt (Nat.lt_irrefl _)

/-- A packet of `n` octets, not fragmented. -/
def unfragmented (n : ℕ) : Ipv4Packet :=
  ⟨⟨⟨0x0a000001⟩, ⟨0x0a000009⟩, 17, 1, 64, false, false, 0, n⟩, (List.range n).map UInt8.ofNat⟩

/-- 24 octets on an MTU of 36, then the first fragment on one of 28. -/
def firstAgain : List Fragmentation.Event := [⟨0, 36⟩, ⟨0, 28⟩]

/-- 24 octets on an MTU of 36, then the last fragment on one of 28. -/
def lastAgain : List Fragmentation.Event := [⟨0, 36⟩, ⟨1, 28⟩]

open Fragmentation in
theorem reassembles_firstAgain : ∃ tr fs, machine.Run [unfragmented 24] tr fs ∧ tr.map Prod.snd = firstAgain ∧
    fs.map Ipv4Packet.stop = [8, 16, 24] ∧ Reassembles (unfragmented 24).payload fs := by
  obtain ⟨out, -, hrun, hevents, hfs, hmeets⟩ := Machine.exists_replay (M := machine) [unfragmented 24] firstAgain
    (P := fun out => out.1.map Prod.snd = firstAgain ∧ out.2.map Ipv4Packet.stop = [8, 16, 24] ∧
      Machine.Meets Keeps out.1) (by decide +kernel)
  exact ⟨out.1, out.2, hrun, hevents, hfs, (reassembles_iff rfl rfl (by decide) hrun).1.mpr hmeets⟩

open Fragmentation in
/-- The second part is put at the beginning. -/
theorem not_reassembles_lastAgain : ¬ ∀ (packet : Ipv4Packet) (tr : List (List Ipv4Packet × Event))
    (fs : List Ipv4Packet), packet.header.fragmentOffset = 0 → packet.header.moreFragments = false →
    packet.payload.length < 2 ^ 16 → machine.Run [packet] tr fs → Reassembles packet.payload fs := by
  intro h
  obtain ⟨out, -, hrun, hwrong⟩ := Machine.exists_replay (M := machine) [unfragmented 24] lastAgain
    (P := fun out => deliveries .new out.2 ≠ expected (unfragmented 24).payload out.2 [] out.2) (by decide +kernel)
  exact hwrong (h _ _ _ rfl rfl (by decide) hrun out.2 fun _ => id)

end Ipv4L3Protocol

end Ns3
