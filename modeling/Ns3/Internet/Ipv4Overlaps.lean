import Ns3.Internet.Ipv4Reassembly
import Mathlib.Data.List.Induction

/-!
# Overlapping IPv4 fragments

What `Fragments` (`Ipv4Fragments`) makes of fragments that overlap in any way, nested ones included. `GetPacket` and
`GetPartialPacket` ask for the part of a fragment that is behind what they have (`CreateFragment`), and compute its size
by a subtraction without a sign.

* `assemblePartial_eq` — `GetPartialPacket` puts together the fragments before the first gap.
* `assembleSizes_nonneg`, `assemblePartialSizes_nonneg_iff` — `GetPacket` computes no negative size; `GetPartialPacket`
  does not if and only if, up to the first gap, no fragment ends before the end of those in front of it.
* `Ordered.reassembled`, `gather_reassembled_iff` — the same is the condition for all that they should do.
-/

namespace Ns3.Ipv4L3Protocol

open Lib

namespace Fragments

/-- `newSize`: what is left of a fragment behind `lastEndOffset`. -/
def newSize (lastEndOffset : ℕ) (it : List UInt8 × ℕ) : ℤ := it.1.length - ((lastEndOffset : ℤ) - it.2)

/-- The sizes that the loop of `GetPacket` computes. -/
def assembleSizes (p : List UInt8) (lastEndOffset : ℕ) : List (List UInt8 × ℕ) → List ℤ
  | [] => []
  | it :: rest =>
    let sizes :=
      if lastEndOffset > it.2 then
        if it.1.length > lastEndOffset - it.2 then [newSize lastEndOffset it] else []
      else []
    let p :=
      if lastEndOffset > it.2 then
        if it.1.length > lastEndOffset - it.2 then p ++ it.1.drop (lastEndOffset - it.2) else p
      else p ++ it.1
    sizes ++ assembleSizes p (p.length % 2 ^ 16) rest

/-- The sizes that `GetPacket` computes. -/
def sizes (f : Fragments) : List ℤ := assembleSizes [] 0 f.fragments

/-- The sizes that the loop of `GetPartialPacket` computes. -/
def assemblePartialSizes (p : List UInt8) (lastEndOffset : ℕ) : List (List UInt8 × ℕ) → List ℤ
  | [] => []
  | it :: rest =>
    let sizes := if lastEndOffset > it.2 then [newSize lastEndOffset it] else []
    let p :=
      if lastEndOffset > it.2 then p ++ it.1.drop (lastEndOffset - it.2)
      else if lastEndOffset = it.2 then p ++ it.1
      else p
    sizes ++ assemblePartialSizes p (p.length % 2 ^ 16) rest

/-- The sizes that `GetPartialPacket` computes. -/
def partialSizes (f : Fragments) : List ℤ :=
  match f.fragments with
  | [] => []
  | first :: _ => if first.2 > 0 then [] else assemblePartialSizes [] 0 f.fragments

/-- What the fragments should be put together to. -/
structure Reassembled (f : Fragments) : Prop where
  /-- The packet has one octet per offset up to the greatest end, from the first fragment that covers it. -/
  packet : f.isEntire = true → f.getPacket.length = Pieces.reach 0 f.fragments ∧
    ∀ i < f.getPacket.length, Pieces.Covered f.fragments i ∧ f.getPacket[i]? = Pieces.itemAt i f.fragments
  /-- The part of a packet is the longest without a gap. -/
  partialPacket : f.isEntire = false → ¬ Pieces.Covered f.fragments f.getPartialPacket.length ∧
    ∀ i < f.getPartialPacket.length,
      Pieces.Covered f.fragments i ∧ f.getPartialPacket[i]? = Pieces.itemAt i f.fragments
  sizes_nonneg : ∀ n ∈ f.sizes, 0 ≤ n
  /-- No size of a part is negative, of those lists that are not complete. -/
  partialSizes_nonneg : f.isEntire = false → ∀ n ∈ f.partialSizes, 0 ≤ n

variable {p : List UInt8} {l : List (List UInt8 × ℕ)}

theorem assembleSizes_nonneg (p : List UInt8) (lastEndOffset : ℕ) (l : List (List UInt8 × ℕ)) :
    ∀ n ∈ assembleSizes p lastEndOffset l, 0 ≤ n := by
  induction l generalizing p lastEndOffset with
  | nil => exact fun n hn => absurd hn List.not_mem_nil
  | cons it rest ih =>
    intro n hn
    rw [assembleSizes] at hn
    rcases List.mem_append.mp hn with hn | hn
    · split_ifs at hn with hover hlong
      · rw [List.mem_singleton.mp hn, newSize]
        omega
      · exact absurd hn List.not_mem_nil
      · exact absurd hn List.not_mem_nil
    · exact ih _ _ n hn

theorem assemblePartial_of_lt (hp : p.length < 2 ^ 16) (h : ∀ q ∈ l, p.length < q.2) :
    assemblePartial p p.length l = p ∧ assemblePartialSizes p p.length l = [] := by
  induction l with
  | nil => exact ⟨rfl, rfl⟩
  | cons it rest ih =>
    obtain ⟨hit, hrest⟩ := List.forall_mem_cons.mp h
    rw [assemblePartial, assemblePartialSizes]
    rw [if_neg (Nat.lt_asymm hit), if_neg (Nat.ne_of_lt hit), if_neg (Nat.lt_asymm hit), Nat.mod_eq_of_lt hp]
    exact ih hrest

/-- A fragment that begins within what there is goes on from there. -/
theorem next_eq {it : List UInt8 × ℕ} (hle : it.2 ≤ p.length) :
    (if p.length > it.2 then p ++ it.1.drop (p.length - it.2) else if p.length = it.2 then p ++ it.1 else p) =
      p ++ it.1.drop (p.length - it.2) := by
  split_ifs with hover heq
  · rfl
  · rw [heq, Nat.sub_self, List.drop_zero]
  · omega

theorem assemblePartial_eq (hp : p.length < 2 ^ 16) (hstop : ∀ q ∈ l, Pieces.stop q < 2 ^ 16)
    (hsorted : Pieces.Sorted l) : assemblePartial p p.length l = Pieces.join p (Pieces.upToGap p.length l) := by
  induction l generalizing p with
  | nil => rfl
  | cons it rest ih =>
    obtain ⟨hit, hrest⟩ := List.forall_mem_cons.mp hstop
    obtain ⟨hbelow, hsorted'⟩ := List.pairwise_cons.mp hsorted
    rw [Pieces.upToGap]
    split_ifs with hle
    · have hlength := Pieces.length_append_drop hle
      have hlt : (p ++ it.1.drop (p.length - it.2)).length < 2 ^ 16 := hlength ▸ max_lt hp hit
      rw [assemblePartial, next_eq hle, Nat.mod_eq_of_lt hlt, ih hlt hrest hsorted', hlength, Pieces.join]
    · have hgap : ∀ q ∈ it :: rest, p.length < q.2 := by
        refine List.forall_mem_cons.mpr ⟨Nat.lt_of_not_le hle, fun q hq => ?_⟩
        exact lt_of_lt_of_le (Nat.lt_of_not_le hle) (hbelow q hq)
      exact (assemblePartial_of_lt hp hgap).1

theorem assemblePartialSizes_nonneg_iff (hp : p.length < 2 ^ 16) (hstop : ∀ q ∈ l, Pieces.stop q < 2 ^ 16)
    (hsorted : Pieces.Sorted l) :
    (∀ n ∈ assemblePartialSizes p p.length l, 0 ≤ n) ↔ Pieces.Growing p.length l := by
  induction l generalizing p with
  | nil => exact iff_of_true (fun n hn => absurd hn List.not_mem_nil) trivial
  | cons it rest ih =>
    obtain ⟨hit, hrest⟩ := List.forall_mem_cons.mp hstop
    obtain ⟨hbelow, hsorted'⟩ := List.pairwise_cons.mp hsorted
    rw [Pieces.Growing]
    by_cases hle : it.2 ≤ p.length
    · have hlength := Pieces.length_append_drop hle
      have hlt : (p ++ it.1.drop (p.length - it.2)).length < 2 ^ 16 := hlength ▸ max_lt hp hit
      have hsize : (∀ n ∈ if p.length > it.2 then [newSize p.length it] else [], 0 ≤ n) ↔
          p.length ≤ Pieces.stop it := by
        rw [Pieces.stop]
        split_ifs with hover
        · rw [List.forall_mem_singleton, newSize]
          omega
        · exact iff_of_true (fun n hn => absurd hn List.not_mem_nil) (by omega)
      rw [forall_prop_of_true hle, assemblePartialSizes, next_eq hle, Nat.mod_eq_of_lt hlt, List.forall_mem_append,
        ih hlt hrest hsorted', hlength, hsize]
    · have hgap : ∀ q ∈ it :: rest, p.length < q.2 := by
        refine List.forall_mem_cons.mpr ⟨Nat.lt_of_not_le hle, fun q hq => ?_⟩
        exact lt_of_lt_of_le (Nat.lt_of_not_le hle) (hbelow q hq)
      rw [(assemblePartial_of_lt hp hgap).2]
      exact iff_of_true (fun n hn => absurd hn List.not_mem_nil) fun h => absurd h hle

/-- The fragments are in order, and end before 65536. -/
structure Ordered (f : Fragments) : Prop where
  sorted : Pieces.Sorted f.fragments
  stop_lt : ∀ q ∈ f.fragments, Pieces.stop q < 2 ^ 16

variable {f : Fragments}

theorem Ordered.addFragment (h : f.Ordered) {fragment : List UInt8} {fragmentOffset : ℕ}
    (hstop : Pieces.stop (fragment, fragmentOffset) < 2 ^ 16) (moreFragment : Bool) :
    (f.addFragment fragment fragmentOffset moreFragment).Ordered := by
  rw [Fragments.addFragment, insert_eq]
  refine ⟨Pieces.sorted_insert h.sorted, fun q hq => ?_⟩
  rcases Pieces.mem_insert_iff.mp hq with rfl | hq
  · exact hstop
  · exact h.stop_lt q hq

theorem Ordered.getPartialPacket_eq (h : f.Ordered) :
    f.getPartialPacket = Pieces.join [] (Pieces.upToGap 0 f.fragments) := by
  have hjoin := assemblePartial_eq (p := []) (by decide) h.stop_lt h.sorted
  rw [getPartialPacket]
  split
  · rename_i hnil
    rw [hnil]
    rfl
  · rename_i first rest hcons
    split_ifs with hgap
    · rw [hcons, Pieces.upToGap, if_neg (Nat.not_le.mpr hgap)]
      rfl
    · exact hjoin

theorem Ordered.partialSizes_nonneg_iff (h : f.Ordered) :
    (∀ n ∈ f.partialSizes, 0 ≤ n) ↔ Pieces.Growing 0 f.fragments := by
  have hiff := assemblePartialSizes_nonneg_iff (p := []) (by decide) h.stop_lt h.sorted
  rw [partialSizes]
  split
  · rename_i hnil
    rw [hnil]
    exact iff_of_true (fun n hn => absurd hn List.not_mem_nil) trivial
  · rename_i first rest hcons
    split_ifs with hgap
    · rw [hcons, Pieces.Growing]
      exact iff_of_true (fun n hn => absurd hn List.not_mem_nil) fun hle => absurd hle (Nat.not_le.mpr hgap)
    · exact hiff

/-- But for the sizes of a part, the fragments are put together as they should be. -/
theorem Ordered.reassembled (h : f.Ordered) (hsizes : f.isEntire = false → ∀ n ∈ f.partialSizes, 0 ≤ n) :
    f.Reassembled where
  packet := by
    intro hentire
    have hgapless : Pieces.Gapless 0 f.fragments := by
      rw [isEntire, Bool.and_eq_true] at hentire
      exact (contiguous_iff h.stop_lt).mp hentire.2
    have hjoin : f.getPacket = Pieces.join [] f.fragments := assemble_eq (by decide) h.stop_lt
    have hlength : f.getPacket.length = Pieces.reach 0 f.fragments := by
      rw [hjoin]
      exact Pieces.length_join hgapless
    refine ⟨hlength, fun i hi => ⟨?_, ?_⟩⟩
    · exact Pieces.covered_of_lt_reach hgapless (Nat.zero_le i) (hlength ▸ hi)
    · rw [hjoin]
      exact Pieces.getElem?_join hgapless (Nat.zero_le i)
  partialPacket := by
    intro _
    have hgapless := Pieces.gapless_upToGap 0 f.fragments
    have hlength : f.getPartialPacket.length = Pieces.reach 0 (Pieces.upToGap 0 f.fragments) := by
      rw [h.getPartialPacket_eq]
      exact Pieces.length_join hgapless
    refine ⟨?_, fun i hi => ⟨?_, ?_⟩⟩
    · rw [hlength]
      exact Pieces.not_covered_reach h.sorted
    · exact Pieces.covered_of_upToGap (Pieces.covered_of_lt_reach hgapless (Nat.zero_le i) (hlength ▸ hi))
    · rw [h.getPartialPacket_eq, ← Pieces.itemAt_upToGap (Nat.zero_le i) (hlength ▸ hi)]
      exact Pieces.getElem?_join hgapless (Nat.zero_le i)
  sizes_nonneg := assembleSizes_nonneg [] 0 f.fragments
  partialSizes_nonneg := hsizes

/-- A fragment that `AddFragment` gets. -/
structure Arrival where
  fragment : List UInt8
  fragmentOffset : ℕ
  moreFragment : Bool
  stop_lt : Pieces.stop (fragment, fragmentOffset) < 2 ^ 16

variable (arrivals : List Arrival)

/-- The fragments that came, inserted one after the other. -/
def gather : Fragments :=
  arrivals.foldl (fun f a => f.addFragment a.fragment a.fragmentOffset a.moreFragment) .new

theorem ordered_gather : (gather arrivals).Ordered := by
  induction arrivals using List.reverseRecOn with
  | nil => exact ⟨List.Pairwise.nil, fun q hq => absurd hq List.not_mem_nil⟩
  | append_singleton arrivals a ih =>
    rw [gather, List.foldl_concat]
    exact ih.addFragment a.stop_lt a.moreFragment

/-- Fragments that came in any order are put together as they should be if and only if they are complete or, up to the
first gap, none ends before the end of those in front of it. -/
theorem gather_reassembled_iff :
    (gather arrivals).Reassembled ↔
      ((gather arrivals).isEntire = false → Pieces.Growing 0 (gather arrivals).fragments) := by
  have h := ordered_gather arrivals
  rw [← h.partialSizes_nonneg_iff]
  exact ⟨Reassembled.partialSizes_nonneg, h.reassembled⟩

/-- Sixteen octets, and eight that lie within them. -/
def nested : List Arrival :=
  [⟨List.replicate 16 1, 0, true, by decide⟩, ⟨List.replicate 8 2, 0, true, by decide⟩]

theorem not_reassembled_nested : ¬ ∀ arrivals : List Arrival, (gather arrivals).Reassembled := by
  intro h
  have hsizes : (gather nested).partialSizes = [-8] := by decide +kernel
  have hnonneg := (h nested).partialSizes_nonneg (by decide +kernel)
  rw [hsizes] at hnonneg
  exact absurd (hnonneg (-8) (List.mem_singleton_self _)) (by decide)

end Fragments

end Ns3.Ipv4L3Protocol
