import Mathlib.Data.List.Infix
import Ns3.Lib.Words
import Ns3.Network.PacketSerialize

/-!
# Nix vectors

`NixVector` (`network/model/nix-vector.cc`): neighbour indexes of given widths in a row of bits, which is kept in words
of 32 bits. An index is added at the end, across two words where it must be, and taken from the end, by the number of
the bits that remain. A call is `none` where it ends in `NS_FATAL_ERROR` or shifts a word by 32 bits or more, which C++
does not define. Numbers are those of `uint32_t`.

`Packed` says that the row has the bits of the indexes one behind the other, which `AddNeighborIndex` keeps
(`Packed.addNeighborIndex`) and `ExtractNeighborIndex` relies on (`Packed.extractAll`). `recovers_iff` says for which
indexes all of them come back: where the bits that remain end with a word, the word is shifted by 32 bits.
-/

namespace Ns3

open Lib

namespace NixVector

/-- `NixVector ()`. -/
def new : NixVector := ⟨[0], 0, 0, 0⟩

/-- Bits are put behind the others, in the last word or in two. -/
def addNeighborIndex (x : NixVector) (newBits numberOfBits : UInt32) : Option NixVector :=
  if numberOfBits > 32 then none
  else if x.currentVectorBitSize + numberOfBits > 32 then
    if x.currentVectorBitSize = 32 then
      some { x with
        nixVector := x.nixVector ++ [newBits]
        currentVectorBitSize := numberOfBits
        totalBitSize := x.totalBitSize + numberOfBits }
    else do
      let back ← x.nixVector.getLast?
      let tempBits ← shiftLeft32 newBits x.currentVectorBitSize
      let newBits ← shiftRight32 newBits (32 - x.currentVectorBitSize)
      some { x with
        nixVector := x.nixVector.dropLast ++ [tempBits ||| back] ++ [newBits]
        currentVectorBitSize := numberOfBits - (32 - x.currentVectorBitSize)
        totalBitSize := x.totalBitSize + numberOfBits }
  else do
    let back ← x.nixVector.getLast?
    let newBits ← shiftLeft32 newBits x.currentVectorBitSize
    some { x with
      nixVector := x.nixVector.dropLast ++ [newBits ||| back]
      currentVectorBitSize := x.currentVectorBitSize + numberOfBits
      totalBitSize := x.totalBitSize + numberOfBits }

/-- The bits that are not yet used. -/
def getRemainingBits (x : NixVector) : UInt32 := x.totalBitSize - x.used

/-- `ExtractNeighborIndex`: the bits that it returns. -/
def extractedBits (x : NixVector) (numberOfBits : UInt32) : Option UInt32 :=
  let totalRemainingBits := x.getRemainingBits
  if numberOfBits > 32 then none
  else if numberOfBits > totalRemainingBits then none
  else if numberOfBits ≤ 0 then none
  else
    let vectorIndex := (totalRemainingBits - 1) / 32
    if vectorIndex > 0 ∧ numberOfBits - 1 > (totalRemainingBits - 1) % 32 then do
      let extractedBits ← shiftLeft32 (← x.nixVector[vectorIndex.toNat]?) (32 - totalRemainingBits % 32)
      let extractedBits ← shiftRight32 extractedBits
        (32 - totalRemainingBits % 32 - (numberOfBits - totalRemainingBits % 32))
      let lowerBits ← shiftRight32 (← x.nixVector[(vectorIndex - 1).toNat]?)
        (32 - (numberOfBits - totalRemainingBits % 32))
      some (extractedBits ||| lowerBits)
    else do
      let extractedBits ← shiftLeft32 (← x.nixVector[vectorIndex.toNat]?) (32 - totalRemainingBits % 32)
      shiftRight32 extractedBits (32 - numberOfBits)

/-- The next bits are taken. -/
def extractNeighborIndex (x : NixVector) (numberOfBits : UInt32) : Option (UInt32 × NixVector) := do
  let bits ← x.extractedBits numberOfBits
  some (bits, { x with used := x.used + numberOfBits })

/-- `AddNeighborIndex` for every index with its width, in order. -/
def addAll (x : NixVector) : List (UInt32 × UInt32) → Option NixVector
  | [] => some x
  | (newBits, numberOfBits) :: indexes => do
    let x ← x.addNeighborIndex newBits numberOfBits
    addAll x indexes

/-- `ExtractNeighborIndex` for every width, in order. -/
def extractAll (x : NixVector) : List UInt32 → Option (List UInt32 × NixVector)
  | [] => some ([], x)
  | numberOfBits :: widths => do
    let (bits, x) ← x.extractNeighborIndex numberOfBits
    let (rest, x) ← extractAll x widths
    some (bits :: rest, x)

/-! ### Adding -/

/-- The widths of the indexes, together. -/
def totalWidth : List (UInt32 × UInt32) → ℕ
  | [] => 0
  | index :: indexes => index.2.toNat + totalWidth indexes

theorem totalWidth_append (l l' : List (UInt32 × UInt32)) : totalWidth (l ++ l') = totalWidth l + totalWidth l' := by
  induction l with
  | nil => rw [List.nil_append, totalWidth, Nat.zero_add]
  | cons index l ih => rw [List.cons_append, totalWidth, totalWidth, ih, Nat.add_assoc]

/-- An index and its width that `AddNeighborIndex` is made for. -/
def Fits (index : UInt32 × UInt32) : Prop :=
  1 ≤ index.2.toNat ∧ index.2.toNat ≤ 32 ∧ index.1.toNat < 2 ^ index.2.toNat

/-- The row is as long as `total`, and no bit is set behind it. -/
structure Shaped (x : NixVector) (total : ℕ) : Prop where
  exists_back : ∃ init back, x.nixVector = init ++ [back] ∧ 32 * init.length + x.currentVectorBitSize.toNat = total
  /-- So many bits of the last word are used. -/
  size_le : x.currentVectorBitSize.toNat ≤ 32
  bit_eq_false : ∀ i, total ≤ i → bit x.nixVector i = false

theorem shaped_new : new.Shaped 0 := by
  refine ⟨⟨[], 0, rfl, rfl⟩, by decide, fun i _ => ?_⟩
  have h := bit_concat [] 0 i
  rw [List.nil_append, List.length_nil, Nat.mul_zero, if_neg (Nat.not_lt_zero i)] at h
  exact h.trans (Nat.zero_testBit _)

/-- An index is added behind the row. -/
theorem Shaped.addNeighborIndex {x : NixVector} {total : ℕ} {v n : UInt32} (h : x.Shaped total) (hv : Fits (v, n)) :
    ∃ x', x.addNeighborIndex v n = some x' ∧ x'.Shaped (total + n.toNat) ∧
      (∀ i, bit x'.nixVector i = if i < total then bit x.nixVector i else v.toNat.testBit (i - total)) ∧
      x'.used = x.used ∧ x'.totalBitSize = x.totalBitSize + n := by
  obtain ⟨hpos, hle, hlt⟩ := hv
  dsimp only at hpos hle hlt
  obtain ⟨⟨init, back, hwords, htotal⟩, hsize, hfalse⟩ := h
  have hadd : (x.currentVectorBitSize + n).toNat = x.currentVectorBitSize.toNat + n.toNat := by
    rw [UInt32.toNat_add]
    exact Nat.mod_eq_of_lt (by omega)
  -- the bits of the index, and none behind them
  have hbehind : ∀ bits : ℕ → Bool,
      (∀ i, bits i = if i < total then bit x.nixVector i else v.toNat.testBit (i - total)) →
        ∀ i, total + n.toNat ≤ i → bits i = false := by
    intro bits hbits i hi
    rw [hbits, if_neg (by omega)]
    exact Nat.testBit_lt_two_pow (Nat.lt_of_lt_of_le hlt (Nat.pow_le_pow_right (by decide) (by omega)))
  have hback : ∀ m, x.currentVectorBitSize.toNat ≤ m → back.toNat.testBit m = false := by
    intro m hm
    have hbit := hfalse (32 * init.length + m) (by omega)
    rwa [hwords, bit_concat, if_neg (by omega), Nat.add_sub_cancel_left] at hbit
  have hlast : x.nixVector.getLast? = some back := by rw [hwords, List.getLast?_concat]
  have hinit : x.nixVector.dropLast = init := by rw [hwords, List.dropLast_concat]
  -- the index goes into the last word, from its first free bit on
  have hmerged : ∀ tempBits, shiftLeft32 v x.currentVectorBitSize = some tempBits → ∀ i,
      (i < 32 * init.length + 32 ∨ total + n.toNat ≤ i) → bit (init ++ [tempBits ||| back]) i =
        if i < total then bit x.nixVector i else v.toNat.testBit (i - total) := by
    intro tempBits htemp i hi
    rw [bit_concat, hwords, bit_concat]
    by_cases hinside : i < 32 * init.length
    · rw [if_pos hinside, if_pos hinside, if_pos (by omega)]
    · rw [if_neg hinside, if_neg hinside, testBit_or_shift htemp hlt (hback _) (by omega)]
      have hshift : i - 32 * init.length - x.currentVectorBitSize.toNat = i - total := by omega
      have hiff : i - 32 * init.length < x.currentVectorBitSize.toNat ↔ i < total := by omega
      rw [hshift]
      exact if_congr hiff rfl rfl
  have hnotWide : ¬ n > 32 := Nat.not_lt.mpr hle
  rw [NixVector.addNeighborIndex, if_neg hnotWide]
  by_cases hover : x.currentVectorBitSize + n > 32
  · have hover' : 32 < x.currentVectorBitSize.toNat + n.toNat := hadd ▸ UInt32.lt_iff_toNat_lt.mp hover
    rw [if_pos hover]
    by_cases hfull : x.currentVectorBitSize = 32
    · -- the last word is full
      have hfull' : x.currentVectorBitSize.toNat = 32 := congrArg UInt32.toNat hfull
      have hlen : 32 * x.nixVector.length = total := by
        rw [hwords, List.length_append, List.length_singleton]
        omega
      have hbits : ∀ i, bit (x.nixVector ++ [v]) i =
          if i < total then bit x.nixVector i else v.toNat.testBit (i - total) := by
        intro i
        rw [bit_concat, hlen]
      rw [if_pos hfull]
      exact ⟨_, rfl, ⟨⟨x.nixVector, v, rfl, by rw [hlen]⟩, hle, hbehind _ hbits⟩, hbits, rfl, rfl⟩
    · -- the index lies across two words
      have hfull' : x.currentVectorBitSize.toNat ≠ 32 := fun h => hfull (UInt32.toNat_inj.mp h)
      have hfree : (32 - x.currentVectorBitSize).toNat = 32 - x.currentVectorBitSize.toNat :=
        UInt32.toNat_sub_of_le _ _ (UInt32.le_iff_toNat_le.mpr hsize)
      have hrestSize : (n - (32 - x.currentVectorBitSize)).toNat = n.toNat - (32 - x.currentVectorBitSize.toNat) := by
        rw [UInt32.toNat_sub_of_le _ _ (UInt32.le_iff_toNat_le.mpr (by omega)), hfree]
      obtain ⟨tempBits, htemp⟩ : ∃ tempBits, shiftLeft32 v x.currentVectorBitSize = some tempBits :=
        ⟨_, if_pos (by omega)⟩
      obtain ⟨rest, hrest⟩ : ∃ rest, shiftRight32 v (32 - x.currentVectorBitSize) = some rest :=
        ⟨_, if_pos (by omega)⟩
      have hlen : 32 * (init ++ [tempBits ||| back]).length = 32 * init.length + 32 := by
        rw [List.length_append, List.length_singleton, Nat.mul_add]
      have hbits : ∀ i, bit (init ++ [tempBits ||| back] ++ [rest]) i =
          if i < total then bit x.nixVector i else v.toNat.testBit (i - total) := by
        intro i
        rw [bit_concat, hlen]
        by_cases hinside : i < 32 * init.length + 32
        · rw [if_pos hinside, hmerged tempBits htemp i (.inl hinside)]
        · have hshift : (32 - x.currentVectorBitSize).toNat + (i - (32 * init.length + 32)) = i - total := by omega
          rw [if_neg hinside, if_neg (by omega), testBit_shiftRight32 hrest, hshift]
      rw [if_neg hfull, hlast, hinit, htemp]
      simp only [Option.bind_eq_bind, Option.bind_some, hrest]
      refine ⟨_, rfl, ⟨⟨_, rest, rfl, ?_⟩, ?_, hbehind _ hbits⟩, hbits, rfl, rfl⟩
      · rw [hlen, hrestSize]
        omega
      · rw [hrestSize]
        omega
  · have hover' : x.currentVectorBitSize.toNat + n.toNat ≤ 32 :=
      hadd ▸ Nat.not_lt.mp fun h => hover (UInt32.lt_iff_toNat_lt.mpr h)
    obtain ⟨tempBits, htemp⟩ : ∃ tempBits, shiftLeft32 v x.currentVectorBitSize = some tempBits :=
      ⟨_, if_pos (by omega)⟩
    have hbits : ∀ i, bit (init ++ [tempBits ||| back]) i =
        if i < total then bit x.nixVector i else v.toNat.testBit (i - total) :=
      fun i => hmerged tempBits htemp i (by omega)
    rw [if_neg hover, hlast, hinit, htemp]
    simp only [Option.bind_eq_bind, Option.bind_some]
    refine ⟨_, rfl, ⟨⟨init, _, rfl, ?_⟩, ?_, hbehind _ hbits⟩, hbits, rfl, rfl⟩
    · rw [hadd]
      omega
    · rw [hadd]
      exact hover'

/-! ### Extracting -/

section

variable {x : NixVector} {n : UInt32} (hpos : 1 ≤ n.toNat) (hroom : n.toNat ≤ x.getRemainingBits.toNat)
include hpos hroom

theorem toNat_pred : (x.getRemainingBits - 1).toNat = x.getRemainingBits.toNat - 1 :=
  UInt32.toNat_sub_of_le _ _ (UInt32.le_iff_toNat_le.mpr (Nat.le_trans hpos hroom))

theorem toNat_vectorIndex : ((x.getRemainingBits - 1) / 32).toNat = (x.getRemainingBits.toNat - 1) / 32 := by
  rw [UInt32.toNat_div, toNat_pred hpos hroom]
  rfl

theorem spans_iff : ((x.getRemainingBits - 1) / 32 > 0 ∧ n - 1 > (x.getRemainingBits - 1) % 32) ↔
    0 < (x.getRemainingBits.toNat - 1) / 32 ∧ (x.getRemainingBits.toNat - 1) % 32 < n.toNat - 1 := by
  have hpred : (n - 1).toNat = n.toNat - 1 := UInt32.toNat_sub_of_le _ _ (UInt32.le_iff_toNat_le.mpr hpos)
  have hmod : ((x.getRemainingBits - 1) % 32).toNat = (x.getRemainingBits.toNat - 1) % 32 := by
    rw [UInt32.toNat_mod, toNat_pred hpos hroom]
    rfl
  rw [gt_iff_lt, gt_iff_lt, UInt32.lt_iff_toNat_lt, UInt32.lt_iff_toNat_lt, toNat_vectorIndex hpos hroom, hpred, hmod]
  rfl

end

theorem toNat_freeBits (r : UInt32) : (32 - r % 32).toNat = 32 - r.toNat % 32 := by
  have hmod : (r % 32).toNat = r.toNat % 32 := UInt32.toNat_mod r 32
  have hle : r % 32 ≤ 32 := by
    rw [UInt32.le_iff_toNat_le, hmod]
    exact (Nat.mod_lt _ (by decide)).le
  rw [UInt32.toNat_sub_of_le _ _ hle, hmod]
  rfl

/-- The bits of an index come from the end of the bits that remain, unless these end with a word. -/
theorem extractedBits_eq {x : NixVector} {total : ℕ} {n : UInt32} (h : x.Shaped total) (hpos : 1 ≤ n.toNat)
    (hle : n.toNat ≤ 32) (hroom : n.toNat ≤ x.getRemainingBits.toNat) (htotal : x.getRemainingBits.toNat ≤ total)
    (hmod : x.getRemainingBits.toNat % 32 ≠ 0) :
    ∃ bits, x.extractedBits n = some bits ∧ ∀ k, bits.toNat.testBit k =
      (decide (k < n.toNat) && bit x.nixVector (x.getRemainingBits.toNat - n.toNat + k)) := by
  obtain ⟨⟨init, back, hwords, hlen⟩, hsize, -⟩ := h
  have hlength : x.nixVector.length = init.length + 1 := by rw [hwords, List.length_append, List.length_singleton]
  have hindex := toNat_vectorIndex hpos hroom
  have hspans := spans_iff hpos hroom
  have hfree := toNat_freeBits x.getRemainingBits
  have hmodNat : (x.getRemainingBits % 32).toNat = x.getRemainingBits.toNat % 32 := UInt32.toNat_mod _ 32
  have hmodLt : x.getRemainingBits.toNat % 32 < 32 := Nat.mod_lt _ (by decide)
  obtain ⟨word, hword⟩ : ∃ word, x.nixVector[((x.getRemainingBits - 1) / 32).toNat]? = some word :=
    ⟨_, List.getElem?_eq_getElem (by omega)⟩
  obtain ⟨high, hhigh⟩ : ∃ high, shiftLeft32 word (32 - x.getRemainingBits % 32) = some high := ⟨_, if_pos (by omega)⟩
  have hnotWide : ¬ n > 32 := Nat.not_lt.mpr hle
  have hnotMore : ¬ n > x.getRemainingBits := Nat.not_lt.mpr hroom
  have hnotZero : ¬ n ≤ 0 := Nat.not_le.mpr hpos
  rw [extractedBits]
  dsimp only
  rw [if_neg hnotWide, if_neg hnotMore, if_neg hnotZero]
  by_cases hspan : (x.getRemainingBits - 1) / 32 > 0 ∧ n - 1 > (x.getRemainingBits - 1) % 32
  · -- the bits of the last word, and the rest from the word before it
    obtain ⟨hfirst, hover⟩ := hspans.mp hspan
    have hrest : (n - x.getRemainingBits % 32).toNat = n.toNat - x.getRemainingBits.toNat % 32 := by
      rw [UInt32.toNat_sub_of_le _ _ (UInt32.le_iff_toNat_le.mpr (by omega)), hmodNat]
    have hskip : (32 - x.getRemainingBits % 32 - (n - x.getRemainingBits % 32)).toNat = 32 - n.toNat := by
      rw [UInt32.toNat_sub_of_le _ _ (UInt32.le_iff_toNat_le.mpr (by omega)), hfree, hrest]
      omega
    have hbelow : (32 - (n - x.getRemainingBits % 32)).toNat = 32 - (n.toNat - x.getRemainingBits.toNat % 32) := by
      rw [UInt32.toNat_sub_of_le _ _
        (UInt32.le_iff_toNat_le.mpr (by rw [hrest]; exact Nat.le_trans (Nat.sub_le _ _) hle)), hrest]
      rfl
    have hbefore : ((x.getRemainingBits - 1) / 32 - 1).toNat = (x.getRemainingBits.toNat - 1) / 32 - 1 := by
      rw [UInt32.toNat_sub_of_le _ _ (UInt32.le_iff_toNat_le.mpr (by rw [hindex]; exact hfirst)), hindex]
      rfl
    obtain ⟨lower, hlower⟩ : ∃ lower, x.nixVector[((x.getRemainingBits - 1) / 32 - 1).toNat]? = some lower :=
      ⟨_, List.getElem?_eq_getElem (by omega)⟩
    obtain ⟨upperBits, hupperBits⟩ : ∃ upperBits, shiftRight32 high
        (32 - x.getRemainingBits % 32 - (n - x.getRemainingBits % 32)) = some upperBits := ⟨_, if_pos (by omega)⟩
    obtain ⟨lowerBits, hlowerBits⟩ : ∃ lowerBits, shiftRight32 lower (32 - (n - x.getRemainingBits % 32)) =
        some lowerBits := ⟨_, if_pos (by omega)⟩
    rw [if_pos hspan, hword, hlower]
    simp only [Option.bind_eq_bind, Option.bind_some, hhigh, hupperBits, hlowerBits]
    refine ⟨_, rfl, fun k => ?_⟩
    rw [UInt32.toNat_or, Nat.testBit_or, testBit_shiftRight32 hupperBits, testBit_shiftLeft32 hhigh,
      testBit_shiftRight32 hlowerBits, hskip, hfree, hbelow]
    rw [hindex] at hword
    rw [hbefore] at hlower
    by_cases hk : k < n.toNat
    · rw [decide_eq_true hk, Bool.true_and]
      by_cases hlow : k < n.toNat - x.getRemainingBits.toNat % 32
      · have hplace : 32 * ((x.getRemainingBits.toNat - 1) / 32 - 1) +
            (32 - (n.toNat - x.getRemainingBits.toNat % 32) + k) = x.getRemainingBits.toNat - n.toNat + k := by omega
        have hno : ¬ 32 - x.getRemainingBits.toNat % 32 ≤ 32 - n.toNat + k := by omega
        rw [testBit_getElem hlower (by omega), hplace, decide_eq_false hno, Bool.false_and, Bool.and_false,
          Bool.false_or]
      · have hyes : 32 - x.getRemainingBits.toNat % 32 ≤ 32 - n.toNat + k := by omega
        have hlt : 32 - n.toNat + k < 32 := by omega
        have hplace : 32 * ((x.getRemainingBits.toNat - 1) / 32) +
            (32 - n.toNat + k - (32 - x.getRemainingBits.toNat % 32)) = x.getRemainingBits.toNat - n.toNat + k := by
          omega
        rw [testBit_of_ge lower (by omega), decide_eq_true hyes, decide_eq_true hlt, Bool.true_and, Bool.true_and,
          Bool.or_false, testBit_getElem hword (by omega), hplace]
    · have hge : ¬ 32 - n.toNat + k < 32 := by omega
      rw [decide_eq_false hk, decide_eq_false hge, Bool.false_and, Bool.false_and, Bool.false_or,
        testBit_of_ge lower (by omega)]
  · have hnotSpan := mt hspans.mpr hspan
    have hskip : (32 - n).toNat = 32 - n.toNat := UInt32.toNat_sub_of_le _ _ (UInt32.le_iff_toNat_le.mpr hle)
    obtain ⟨bits, hbits⟩ : ∃ bits, shiftRight32 high (32 - n) = some bits := ⟨_, if_pos (by omega)⟩
    rw [if_neg hspan, hword]
    simp only [Option.bind_eq_bind, Option.bind_some, hhigh, hbits]
    refine ⟨_, rfl, fun k => ?_⟩
    rw [testBit_shiftRight32 hbits, testBit_shiftLeft32 hhigh, hskip, hfree]
    rw [hindex] at hword
    by_cases hk : k < n.toNat
    · have hyes : 32 - x.getRemainingBits.toNat % 32 ≤ 32 - n.toNat + k := by omega
      have hlt : 32 - n.toNat + k < 32 := by omega
      have hplace : 32 * ((x.getRemainingBits.toNat - 1) / 32) +
          (32 - n.toNat + k - (32 - x.getRemainingBits.toNat % 32)) = x.getRemainingBits.toNat - n.toNat + k := by
        omega
      rw [decide_eq_true hk, decide_eq_true hyes, decide_eq_true hlt, Bool.true_and, Bool.true_and, Bool.true_and,
        testBit_getElem hword (by omega), hplace]
    · have hge : ¬ 32 - n.toNat + k < 32 := by omega
      rw [decide_eq_false hk, decide_eq_false hge, Bool.false_and, Bool.false_and]

/-- Bits are only extracted where the bits that remain do not end with a word. -/
theorem mod_ne_zero_of_extractedBits {x : NixVector} {n bits : UInt32} (h : x.extractedBits n = some bits) :
    n.toNat ≤ x.getRemainingBits.toNat ∧ x.getRemainingBits.toNat % 32 ≠ 0 := by
  have hshift : ∀ a b, shiftLeft32 a (32 - x.getRemainingBits % 32) = some b → x.getRemainingBits.toNat % 32 ≠ 0 := by
    intro a b hab hzero
    rw [shiftLeft32, toNat_freeBits, hzero] at hab
    exact Option.some_ne_none b hab.symm
  rw [extractedBits] at h
  dsimp only at h
  split_ifs at h with hwide hmore hzero hspan
  · simp only [Option.bind_eq_bind, Option.bind_eq_some_iff] at h
    obtain ⟨word, -, high, hhigh, -⟩ := h
    exact ⟨Nat.not_lt.mp hmore, hshift _ _ hhigh⟩
  · simp only [Option.bind_eq_bind, Option.bind_eq_some_iff] at h
    obtain ⟨word, -, high, hhigh, -⟩ := h
    exact ⟨Nat.not_lt.mp hmore, hshift _ _ hhigh⟩

/-! ### All indexes -/

/-- The row has the bits of the indexes, and none is used. -/
structure Packed (x : NixVector) (l : List (UInt32 × UInt32)) : Prop extends Shaped x (totalWidth l) where
  /-- Every index lies behind those before it. -/
  bit_eq : ∀ before v n after, l = before ++ (v, n) :: after →
    ∀ k < n.toNat, bit x.nixVector (totalWidth before + k) = v.toNat.testBit k
  used_eq : x.used = 0
  /-- The number of the bits, as far as it fits. -/
  totalBitSize_eq : x.totalBitSize.toNat = totalWidth l % 2 ^ 32

theorem totalWidth_concat (l : List (UInt32 × UInt32)) (v n : UInt32) :
    totalWidth (l ++ [(v, n)]) = totalWidth l + n.toNat := by
  rw [totalWidth_append, totalWidth, totalWidth, Nat.add_zero]

variable {l : List (UInt32 × UInt32)}

theorem Packed.addNeighborIndex {x : NixVector} (h : x.Packed l) {v n : UInt32} (hv : Fits (v, n)) :
    ∃ x', x.addNeighborIndex v n = some x' ∧ x'.Packed (l ++ [(v, n)]) := by
  obtain ⟨x', hx', hshaped, hbits, hused, htotal⟩ := h.toShaped.addNeighborIndex hv
  rw [← totalWidth_concat l v n] at hshaped
  refine ⟨x', hx', ⟨hshaped, ?_, hused.trans h.used_eq, ?_⟩⟩
  · intro before v' n' after heq k hk
    rcases List.eq_nil_or_concat' after with rfl | ⟨after, last, rfl⟩
    · -- the index that was added
      obtain ⟨rfl, hlast⟩ := List.append_inj' heq rfl
      obtain ⟨rfl, rfl⟩ := Prod.mk.inj (List.singleton_inj.mp hlast)
      rw [hbits, if_neg (by omega), Nat.add_sub_cancel_left]
    · -- one before it
      rw [← List.cons_append, ← List.append_assoc] at heq
      obtain ⟨hl, -⟩ := List.append_inj' heq rfl
      have hwidth : totalWidth l = totalWidth before + (n'.toNat + totalWidth after) := by
        rw [hl, totalWidth_append, totalWidth]
      rw [hbits, if_pos (by omega), h.bit_eq before v' n' after hl k hk]
  · rw [htotal, UInt32.toNat_add, h.totalBitSize_eq, totalWidth_concat, Nat.mod_add_mod]

theorem packed_new : new.Packed [] :=
  ⟨shaped_new, fun _ _ _ _ heq => absurd heq (by simp), rfl, rfl⟩

theorem Packed.addAll {x : NixVector} {l l' : List (UInt32 × UInt32)} (h : x.Packed l)
    (hfits : ∀ index ∈ l', Fits index) : ∃ x', x.addAll l' = some x' ∧ x'.Packed (l ++ l') := by
  induction l' generalizing x l with
  | nil => exact ⟨x, rfl, by rwa [List.append_nil]⟩
  | cons index l' ih =>
    obtain ⟨v, n⟩ := index
    obtain ⟨x₁, hx₁, h₁⟩ := h.addNeighborIndex (hfits (v, n) List.mem_cons_self)
    obtain ⟨x', hx', h'⟩ := ih h₁ fun index hindex => hfits index (List.mem_cons_of_mem _ hindex)
    refine ⟨x', ?_, by rwa [List.append_assoc] at h'⟩
    simp only [NixVector.addAll, hx₁, Option.bind_eq_bind, Option.bind_some, hx']

/-- No index ends where a word ends. -/
def Unaligned (l : List (UInt32 × UInt32)) : Prop := ∀ before, before <+: l → before ≠ [] → totalWidth before % 32 ≠ 0

instance (l : List (UInt32 × UInt32)) : Decidable (Unaligned l) :=
  decidable_of_iff (∀ before ∈ l.inits, before ≠ [] → totalWidth before % 32 ≠ 0)
    (forall_congr' fun before => imp_congr_left (List.mem_inits before l))

theorem unaligned_concat {index : UInt32 × UInt32} :
    Unaligned (l ++ [index]) ↔ Unaligned l ∧ totalWidth (l ++ [index]) % 32 ≠ 0 := by
  constructor
  · intro h
    exact ⟨fun before hbefore => h before (hbefore.trans (List.prefix_append l _)),
      h _ List.prefix_rfl (List.append_ne_nil_of_right_ne_nil _ (List.cons_ne_nil _ _))⟩
  · rintro ⟨hl, hlast⟩ before hbefore hne
    rcases List.prefix_concat_iff.mp hbefore with rfl | hbefore
    · exact hlast
    · exact hl before hbefore hne

/-- The vector when so many bits are used. -/
def withUsed (x : NixVector) (used : ℕ) : NixVector := { x with used := UInt32.ofNat used }

theorem toNat_getRemainingBits_withUsed {x : NixVector} {used : ℕ} (h : used ≤ x.totalBitSize.toNat) :
    (x.withUsed used).getRemainingBits.toNat = x.totalBitSize.toNat - used := by
  have hlt := x.totalBitSize.toNat_lt
  have hused : (UInt32.ofNat used).toNat = used := UInt32.toNat_ofNat_of_lt' (Nat.lt_of_le_of_lt h hlt)
  rw [getRemainingBits, withUsed, UInt32.toNat_sub_of_le _ _ (UInt32.le_iff_toNat_le.mpr (by rwa [hused])), hused]

/-- The indexes come back, the last first. -/
theorem Packed.extractAll {x : NixVector} {l l₁ l₂ : List (UInt32 × UInt32)} (h : x.Packed l)
    (hlt : totalWidth l < 2 ^ 32) (hfits : ∀ index ∈ l, Fits index) (hl : l = l₁ ++ l₂) (hunaligned : Unaligned l₁) :
    (x.withUsed (totalWidth l₂)).extractAll (l₁.reverse.map Prod.snd) =
      some (l₁.reverse.map Prod.fst, x.withUsed (totalWidth l)) := by
  induction l₁ using List.reverseRecOn generalizing l₂ with
  | nil =>
    rw [List.nil_append] at hl
    rw [hl]
    rfl
  | append_singleton l₁ index ih =>
    obtain ⟨v, n⟩ := index
    obtain ⟨hunaligned', hmod⟩ := unaligned_concat.mp hunaligned
    rw [List.append_assoc, List.singleton_append] at hl
    have hwidth : totalWidth l = totalWidth l₁ + (n.toNat + totalWidth l₂) := by
      rw [hl, totalWidth_append, totalWidth]
    obtain ⟨hpos, hle, hv⟩ := hfits (v, n) (hl ▸ List.mem_append_right _ List.mem_cons_self)
    dsimp only at hpos hle hv
    have htotal : x.totalBitSize.toNat = totalWidth l := by rw [h.totalBitSize_eq, Nat.mod_eq_of_lt hlt]
    have hremaining : (x.withUsed (totalWidth l₂)).getRemainingBits.toNat = totalWidth l₁ + n.toNat := by
      rw [toNat_getRemainingBits_withUsed (by omega)]
      omega
    have hshaped : (x.withUsed (totalWidth l₂)).Shaped (totalWidth l) := ⟨h.exists_back, h.size_le, h.bit_eq_false⟩
    obtain ⟨bits, hextracted, hbits⟩ := extractedBits_eq hshaped hpos hle (by omega) (by omega)
      (by rwa [hremaining, ← totalWidth_concat l₁ v n])
    have hvalue : bits = v := by
      apply UInt32.toNat_inj.mp
      apply Nat.eq_of_testBit_eq
      intro k
      rw [hbits, hremaining, Nat.add_sub_cancel]
      by_cases hk : k < n.toNat
      · rw [decide_eq_true hk, Bool.true_and]
        exact h.bit_eq l₁ v n l₂ hl k hk
      · rw [decide_eq_false hk, Bool.false_and]
        exact (Nat.testBit_lt_two_pow (Nat.lt_of_lt_of_le hv
          (Nat.pow_le_pow_right (by decide) (Nat.not_lt.mp hk)))).symm
    have hused : UInt32.ofNat (totalWidth l₂) + n = UInt32.ofNat (totalWidth ((v, n) :: l₂)) := by
      rw [totalWidth, Nat.add_comm, UInt32.ofNat_add, UInt32.ofNat_toNat]
    have hrest := ih hl hunaligned'
    rw [List.reverse_append, List.reverse_singleton, List.singleton_append, List.map_cons, List.map_cons]
    simp only [NixVector.extractAll, extractNeighborIndex, Option.bind_eq_bind, hextracted, Option.bind_some]
    rw [withUsed] at hrest ⊢
    simp only [hused, hrest, Option.bind_some, hvalue]

/-- Where all indexes are extracted, their bits were there, and no index ended where a word ends. -/
theorem of_extractAll {x : NixVector} {used : ℕ} {r : List UInt32 × NixVector} (hused : used ≤ x.totalBitSize.toNat)
    (h : (x.withUsed used).extractAll (l.reverse.map Prod.snd) = some r) :
    used + totalWidth l ≤ x.totalBitSize.toNat ∧ (used + totalWidth l = x.totalBitSize.toNat → Unaligned l) := by
  induction l using List.reverseRecOn generalizing used r with
  | nil => exact ⟨hused, fun _ before hbefore hne => absurd (List.prefix_nil.mp hbefore) hne⟩
  | append_singleton l index ih =>
    obtain ⟨v, n⟩ := index
    rw [List.reverse_append, List.reverse_singleton, List.singleton_append, List.map_cons] at h
    simp only [NixVector.extractAll, extractNeighborIndex, Option.bind_eq_bind, Option.bind_eq_some_iff,
      Option.some.injEq, Prod.exists, Prod.mk.injEq] at h
    obtain ⟨bits, x₁, ⟨bits', hextracted, rfl, rfl⟩, rest, x₂, hrest, -⟩ := h
    obtain ⟨hroom, hmod⟩ := mod_ne_zero_of_extractedBits hextracted
    rw [toNat_getRemainingBits_withUsed hused] at hroom hmod
    have hnext : UInt32.ofNat used + n = UInt32.ofNat (used + n.toNat) := by
      rw [UInt32.ofNat_add, UInt32.ofNat_toNat]
    have hrest' : (x.withUsed (used + n.toNat)).extractAll (l.reverse.map Prod.snd) = some (rest, x₂) := by
      rw [withUsed, ← hnext]
      exact hrest
    obtain ⟨hle, hunaligned⟩ := ih (by omega) hrest'
    rw [unaligned_concat, totalWidth_concat]
    refine ⟨by omega, fun htotal => ⟨hunaligned (by omega), ?_⟩⟩
    have hbits : totalWidth l + n.toNat = x.totalBitSize.toNat - used := by omega
    rwa [hbits]

/-- All indexes that are added to an empty vector come back, the last first, and no bits remain. -/
def Recovers (l : List (UInt32 × UInt32)) : Prop :=
  ∃ x x', new.addAll l = some x ∧
    x.extractAll (l.reverse.map Prod.snd) = some (l.reverse.map Prod.fst, x') ∧ x'.getRemainingBits = 0

/-- The indexes come back exactly if no index ends where a word ends, and their bits can be counted. -/
theorem recovers_iff {l : List (UInt32 × UInt32)} (hfits : ∀ index ∈ l, Fits index) :
    Recovers l ↔ totalWidth l < 2 ^ 32 ∧ Unaligned l := by
  obtain ⟨x, hx, hpacked⟩ := packed_new.addAll hfits
  rw [List.nil_append] at hpacked
  have hused : x.withUsed 0 = x := by
    rw [withUsed]
    exact congrArg (fun used => { x with used := used }) hpacked.used_eq.symm
  have htotal := hpacked.totalBitSize_eq
  constructor
  · rintro ⟨x₁, x', hx₁, hextract, -⟩
    obtain rfl := Option.some.inj (hx.symm.trans hx₁)
    rw [← hused] at hextract
    obtain ⟨hle, hunaligned⟩ := of_extractAll (Nat.zero_le _) hextract
    rw [Nat.zero_add] at hle hunaligned
    have hlt : totalWidth l < 2 ^ 32 := Nat.lt_of_le_of_lt hle x.totalBitSize.toNat_lt
    exact ⟨hlt, hunaligned (by rw [htotal, Nat.mod_eq_of_lt hlt])⟩
  · rintro ⟨hlt, hunaligned⟩
    rw [Nat.mod_eq_of_lt hlt] at htotal
    have hextract := @Packed.extractAll x l l [] hpacked hlt hfits (List.append_nil l).symm hunaligned
    rw [totalWidth, hused] at hextract
    refine ⟨x, _, hx, hextract, UInt32.toNat_inj.mp ?_⟩
    rw [toNat_getRemainingBits_withUsed htotal.ge, htotal, Nat.sub_self, UInt32.toNat_zero]

/-- `recovers_iff` for three indexes, of which one lies across two words. -/
theorem recovers_acrossWords : Recovers [(5, 3), (0x12345678, 30), (1, 2)] :=
  (recovers_iff (by simp [Fits])).mpr ⟨by decide, by decide⟩

/-- An index as wide as a word is shifted by 32 bits. -/
theorem not_recovers_word : ¬ Recovers [(7, 32)] := by
  rintro ⟨x, x', hx, hextract, -⟩
  have hadded : new.addAll [(7, 32)] = some ⟨[7], 0, 32, 32⟩ := by decide
  obtain rfl := Option.some.inj (hadded.symm.trans hx)
  have hnone : NixVector.extractAll ⟨[7], 0, 32, 32⟩ [32] = none := by decide
  exact Option.some_ne_none _ (hextract.symm.trans hnone)

end NixVector

end Ns3
