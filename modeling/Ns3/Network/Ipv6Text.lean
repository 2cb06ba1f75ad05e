import Mathlib.Algebra.Group.Nat.Defs
import Mathlib.Data.List.Induction

/-!
# The text of an IPv6 address

`AsciiToIpv6Host` (`network/utils/ipv6-address.cc`): a loop over the characters of a string, with the value of the
group of hexadecimal digits it is in, a pointer to where the next group is written and one to where the `::` was. At
the end what was written behind the `::` is moved to the end of the address. A string is the list of its characters,
without the zero that ends it; a pointer into `tmp` is an offset.

## What is proved

`Denotes` is the notation: eight groups, or fewer with one `::`. Between the two lies `readTokens`, which reads the
string cut at its colons: `parse_intercalate` says that the parser does what it does, `readTokens_eq_some` what that
is. The parser also accepts one colon behind a text that ends with a digit, and `meets_iff` says that this is the only
difference.
-/

namespace Ns3

namespace Ipv6Text

/-! ### The parser -/

/-- `xdigits_l`. -/
def xdigitsL : List UInt8 := "0123456789abcdef".toList.map Char.toUInt8

/-- `xdigits_u`. -/
def xdigitsU : List UInt8 := "0123456789ABCDEF".toList.map Char.toUInt8

/-- `':'`. -/
def colon : UInt8 := 58

/-- `pch - xdigits`, where `strchr` finds the character in one of the two strings. -/
def xdigit (ch : UInt8) : Option ℕ := xdigitsL.idxOf? ch <|> xdigitsU.idxOf? ch

/-- The locals of `AsciiToIpv6Host`. -/
structure State where
  /-- `tmp`: 16 octets. -/
  tmp : List UInt8
  tp : ℕ
  colonp : Option ℕ
  seenXdigits : ℕ
  val : UInt32

/-- Before the loop. -/
def start : State := ⟨List.replicate 16 0, 0, none, 0, 0⟩

/-- A group is written. -/
def State.store (s : State) : State where
  tmp := (s.tmp.set s.tp (s.val >>> 8).toUInt8).set (s.tp + 1) s.val.toUInt8
  tp := s.tp + 2
  colonp := s.colonp
  seenXdigits := 0
  val := 0

/-- The loop over the characters; `none` where it returns. -/
def loop : State → List UInt8 → Option State
  | s, [] => some s
  | s, ch :: address =>
    match xdigit ch with
    | some digit =>
      let s := { s with val := s.val <<< 4 ||| UInt32.ofNat digit, seenXdigits := s.seenXdigits + 1 }
      if s.seenXdigits > 4 then none else loop s address
    | none =>
      if ch = colon then
        if s.seenXdigits = 0 then
          if s.colonp.isSome then none else loop { s with colonp := some s.tp } address
        else if s.tp + 2 > 16 then none
        else loop s.store address
      else none

/-- The rounds that move the `n` octets from `colonp` on to the end. -/
def shift (tmp : List UInt8) (colonp n : ℕ) : List UInt8 :=
  (List.range' 1 n).foldl
    (fun tmp i => (tmp.set (16 - i) (tmp[colonp + (n - i)]?.getD 0)).set (colonp + (n - i)) 0) tmp

/-- What comes behind the loop: the last group, and the `::`. -/
def finish (s : State) : Option (List UInt8) := do
  let s ← if s.seenXdigits ≠ 0 then if s.tp + 2 > 16 then none else some s.store else some s
  match s.colonp with
  | some colonp => if s.tp = 16 then none else some (shift s.tmp colonp (s.tp - colonp))
  | none => if s.tp ≠ 16 then none else some s.tmp

/-- What is done with a leading `::`: the loop starts with its second colon. -/
def skipColon (address : List UInt8) : Option (List UInt8) :=
  if address.head? = some colon then
    if address.tail.head? ≠ some colon then none else some address.tail
  else some address

/-- The octets that are written to `addr`. -/
def parse (address : List UInt8) : Option (List UInt8) := do
  let address ← skipColon address
  let s ← loop start address
  finish s

/-- `AsciiToIpv6Host`: what it returns, and what is in the buffer `addr` then. -/
def asciiToIpv6Host (address addr : List UInt8) : Bool × List UInt8 :=
  match parse address with
  | some tmp => (true, tmp)
  | none => (false, addr)

/-! ### The notation -/

/-- One to four hexadecimal digits. -/
structure IsGroup (g : List UInt8) : Prop where
  ne_nil : g ≠ []
  length_le : g.length ≤ 4
  digits : ∀ ch ∈ g, (xdigit ch).isSome

instance (g : List UInt8) : Decidable (IsGroup g) :=
  haveI : Decidable (∀ ch ∈ g, (xdigit ch).isSome) := List.decidableBAll _ _
  decidable_of_iff (g ≠ [] ∧ g.length ≤ 4 ∧ ∀ ch ∈ g, (xdigit ch).isSome)
    ⟨fun ⟨hne, hlen, hdigits⟩ => ⟨hne, hlen, hdigits⟩, fun ⟨hne, hlen, hdigits⟩ => ⟨hne, hlen, hdigits⟩⟩

/-- The number that hexadecimal digits denote, when they come behind those of `v`. -/
def valueFrom (v : ℕ) (g : List UInt8) : ℕ := g.foldl (fun v ch => v * 16 + (xdigit ch).getD 0) v

/-- The two octets of a group. -/
def groupOctets (g : List UInt8) : List UInt8 := [UInt8.ofNat (valueFrom 0 g / 256), UInt8.ofNat (valueFrom 0 g)]

/-- The text with the groups `gs`, with single colons between them. -/
def groupsText (gs : List (List UInt8)) : List UInt8 := [colon].intercalate gs

/-- `Denotes s out`: the text `s` denotes the address with the octets `out`. -/
inductive Denotes : List UInt8 → List UInt8 → Prop where
  | full {gs : List (List UInt8)} (hgs : ∀ g ∈ gs, IsGroup g) (hlen : gs.length = 8) :
      Denotes (groupsText gs) (gs.flatMap groupOctets)
  /-- Fewer groups, and `::` for at least one of zeros. -/
  | compressed {before after : List (List UInt8)} (hbefore : ∀ g ∈ before, IsGroup g)
      (hafter : ∀ g ∈ after, IsGroup g) (hlen : before.length + after.length ≤ 7) :
      Denotes (groupsText before ++ colon :: colon :: groupsText after)
        (before.flatMap groupOctets ++ (List.replicate (16 - 2 * (before.length + after.length)) 0 ++
          after.flatMap groupOctets))

/-! ### The digits of a group -/

theorem xdigit_lt {ch : UInt8} {digit : ℕ} (h : xdigit ch = some digit) : digit < 16 := by
  rw [xdigit] at h
  cases hlower : xdigitsL.idxOf? ch with
  | some i =>
    rw [hlower] at h
    obtain ⟨hlt, -⟩ := List.findIdx?_eq_some_iff_getElem.mp hlower
    rw [← Option.some.inj h]
    exact hlt
  | none =>
    rw [hlower] at h
    obtain ⟨hlt, -⟩ := List.findIdx?_eq_some_iff_getElem.mp h
    exact hlt

theorem xdigit_colon : xdigit colon = none := by decide

theorem toNat_shift_or {val : UInt32} {digit : ℕ} (hval : val.toNat < 2 ^ 28) (hdigit : digit < 16) :
    (val <<< 4 ||| UInt32.ofNat digit).toNat = val.toNat * 16 + digit := by
  have hmod : val.toNat <<< 4 % 2 ^ 32 = val.toNat <<< 4 := by
    rw [Nat.shiftLeft_eq]
    exact Nat.mod_eq_of_lt (by omega)
  have hdigit' : (UInt32.ofNat digit).toNat = digit := by
    rw [UInt32.toNat_ofNat']
    exact Nat.mod_eq_of_lt (by omega)
  have hfour : (4 : UInt32).toNat % 32 = 4 := rfl
  rw [UInt32.toNat_or, UInt32.toNat_shiftLeft, hfour, hmod, hdigit', ← Nat.shiftLeft_add_eq_or_of_lt hdigit,
    Nat.shiftLeft_eq]

theorem valueFrom_lt {v k : ℕ} {g : List UInt8} (hv : v < 16 ^ k) : valueFrom v g < 16 ^ (k + g.length) := by
  induction g generalizing v k with
  | nil => exact hv
  | cons ch g ih =>
    have hdigit : (xdigit ch).getD 0 < 16 := by
      cases h : xdigit ch with
      | none => decide
      | some digit => exact xdigit_lt h
    have hnext : v * 16 + (xdigit ch).getD 0 < 16 ^ (k + 1) := by
      rw [Nat.pow_succ]
      omega
    have hrest := ih hnext
    rw [List.length_cons, Nat.add_comm g.length 1, ← Nat.add_assoc]
    exact hrest

/-- The loop goes over the digits of a group: as many as make four with those it has seen. -/
theorem loop_digits {s : State} {g rest : List UInt8} (hg : ∀ ch ∈ g, (xdigit ch).isSome)
    (hval : s.val.toNat < 16 ^ s.seenXdigits) (hlen : s.seenXdigits + g.length ≤ 4) :
    loop s (g ++ rest) =
      loop { s with seenXdigits := s.seenXdigits + g.length, val := UInt32.ofNat (valueFrom s.val.toNat g) } rest := by
  induction g generalizing s with
  | nil =>
    rw [List.nil_append, List.length_nil, Nat.add_zero, valueFrom, List.foldl_nil, UInt32.ofNat_toNat]
  | cons ch g ih =>
    obtain ⟨digit, hdigit⟩ := Option.isSome_iff_exists.mp (hg ch List.mem_cons_self)
    rw [List.length_cons] at hlen
    have hsmall : s.val.toNat < 2 ^ 28 := by
      have hpow : 16 ^ s.seenXdigits ≤ 16 ^ 3 := Nat.pow_le_pow_right (by decide) (by omega)
      omega
    have hnext := toNat_shift_or hsmall (xdigit_lt hdigit)
    have hroom : ¬ s.seenXdigits + 1 > 4 := by omega
    rw [List.cons_append, loop, hdigit]
    simp only [hroom, if_false]
    rw [ih (fun ch' hch' => hg ch' (List.mem_cons_of_mem _ hch'))]
    · simp only [hnext, valueFrom, List.foldl_cons, hdigit, Option.getD_some, List.length_cons]
      congr 2
      omega
    · simp only [hnext, Nat.pow_succ]
      have := xdigit_lt hdigit
      omega
    · simp only
      omega

/-- The loop returns in what is neither a group nor followed by a colon. -/
theorem loop_eq_none {s : State} {g rest : List UInt8} (hcolon : colon ∉ g)
    (hg : ¬ ((∀ ch ∈ g, (xdigit ch).isSome) ∧ s.seenXdigits + g.length ≤ 4)) (hseen : s.seenXdigits ≤ 4) :
    loop s (g ++ rest) = none := by
  induction g generalizing s with
  | nil => exact absurd ⟨fun ch hch => absurd hch List.not_mem_nil, hseen⟩ hg
  | cons ch g ih =>
    have hne : ch ≠ colon := fun h => hcolon (h ▸ List.mem_cons_self)
    have hcolon' : colon ∉ g := fun h => hcolon (List.mem_cons_of_mem _ h)
    rw [List.cons_append, loop]
    cases hdigit : xdigit ch with
    | none => exact if_neg hne
    | some digit =>
      dsimp only
      split_ifs with hfour
      · rfl
      · refine ih hcolon' (fun hall => hg ⟨fun ch' hch' => ?_, ?_⟩) (by simpa using hfour)
        · rcases List.mem_cons.mp hch' with rfl | hch'
          · rw [hdigit]
            rfl
          · exact hall.1 ch' hch'
        · have hlen : s.seenXdigits + 1 + g.length ≤ 4 := hall.2
          rw [List.length_cons]
          omega

/-! ### Between two groups -/

/-- The state when the octets `b` are written and no digit of the next group is read. -/
def between (b : List UInt8) (colonp : Option ℕ) : State :=
  ⟨b ++ List.replicate (16 - b.length) 0, b.length, colonp, 0, 0⟩

/-- The state when the digits `g` of the next group are read. -/
def within (b : List UInt8) (colonp : Option ℕ) (g : List UInt8) : State :=
  ⟨b ++ List.replicate (16 - b.length) 0, b.length, colonp, g.length, UInt32.ofNat (valueFrom 0 g)⟩

theorem length_groupOctets (g : List UInt8) : (groupOctets g).length = 2 := rfl

theorem toUInt8_shift {v : ℕ} (hv : v < 2 ^ 16) : (UInt32.ofNat v >>> 8).toUInt8 = UInt8.ofNat (v / 256) := by
  have hval : (UInt32.ofNat v).toNat = v := by
    rw [UInt32.toNat_ofNat']
    exact Nat.mod_eq_of_lt (by omega)
  have height : (8 : UInt32).toNat % 32 = 8 := rfl
  apply UInt8.toNat_inj.mp
  rw [UInt32.toNat_toUInt8, UInt32.toNat_shiftRight, hval, height, Nat.shiftRight_eq_div_pow, UInt8.toNat_ofNat']

theorem toUInt8_ofNat (v : ℕ) : (UInt32.ofNat v).toUInt8 = UInt8.ofNat v := by
  apply UInt8.toNat_inj.mp
  rw [UInt32.toNat_toUInt8, UInt32.toNat_ofNat', UInt8.toNat_ofNat']
  omega

variable {colonp : Option ℕ}

/-- A group goes behind the octets that are written. -/
theorem store_within {b g : List UInt8} (hg : IsGroup g) (hroom : b.length + 2 ≤ 16) :
    (within b colonp g).store = between (b ++ groupOctets g) colonp := by
  have hvalue : valueFrom 0 g < 2 ^ 16 := by
    have hlt := @valueFrom_lt 0 0 g (by decide)
    have hpow : 16 ^ (0 + g.length) ≤ 16 ^ 4 := Nat.pow_le_pow_right (by decide) (by have := hg.length_le; omega)
    omega
  obtain ⟨z, hz⟩ : ∃ z, 16 - b.length = z + 2 := ⟨16 - b.length - 2, by omega⟩
  have hz' : 16 - (b.length + 2) = z := by omega
  have hzeros : List.replicate (16 - b.length) (0 : UInt8) = 0 :: 0 :: List.replicate z 0 := by
    rw [hz]
    rfl
  simp only [State.store, within, between, toUInt8_shift hvalue, toUInt8_ofNat, List.length_append,
    length_groupOctets, hz']
  rw [hzeros, List.set_append_right _ _ (Nat.le_refl _), Nat.sub_self, List.set_cons_zero,
    List.set_append_right _ _ (Nat.le_add_right _ 1), Nat.add_sub_cancel_left, List.set_cons_succ, List.set_cons_zero,
    List.append_assoc]
  rfl

/-! ### The octets behind the `::` -/

/-- One round of `shift`. -/
theorem shift_round {b r : List UInt8} {q : UInt8} {z i n colonp : ℕ} (hi : i = r.length + 1)
    (hlast : colonp + (n - i) = b.length) (hlen : b.length + 1 + (z + 1) + r.length = 16) :
    let tmp := b ++ q :: (List.replicate (z + 1) 0 ++ r)
    (tmp.set (16 - i) (tmp[colonp + (n - i)]?.getD 0)).set (colonp + (n - i)) 0 =
      b ++ (List.replicate (z + 1) 0 ++ q :: r) := by
  intro tmp
  have hread : tmp[colonp + (n - i)]?.getD 0 = q := by
    rw [hlast, List.getElem?_append_right (Nat.le_refl _), Nat.sub_self]
    rfl
  have hplace : 16 - i = b.length + (z + 1) := by omega
  rw [hread, hlast, hplace]
  simp only [tmp]
  rw [List.set_append_right _ _ (Nat.le_add_right _ _), Nat.add_sub_cancel_left, List.set_cons_succ,
    List.set_append_right _ _ (Nat.le_refl _), Nat.sub_self, List.set_cons_zero, List.replicate_succ',
    List.append_assoc,
    List.singleton_append, List.set_append_right _ _ (by simp), List.length_replicate, Nat.sub_self,
    List.set_cons_zero, ← List.cons_append, ← List.replicate_succ, List.replicate_succ']

/-- What is behind the `::` is moved to the end, the last octet first. -/
theorem foldl_shift {b q r : List UInt8} {z n : ℕ} (hn : n = q.length + r.length)
    (hlen : b.length + q.length + (z + 1) + r.length = 16) :
    (List.range' (r.length + 1) q.length).foldl
        (fun tmp i => (tmp.set (16 - i) (tmp[b.length + (n - i)]?.getD 0)).set (b.length + (n - i)) 0)
        (b ++ (q ++ (List.replicate (z + 1) 0 ++ r))) =
      b ++ (List.replicate (z + 1) 0 ++ (q ++ r)) := by
  induction q using List.reverseRecOn generalizing r with
  | nil => rfl
  | append_singleton q x ih =>
    have hround := @shift_round (b ++ q) r x z (r.length + 1) n b.length rfl
      (by simp only [hn, List.length_append, List.length_singleton]; omega)
      (by simp only [List.length_append, List.length_singleton] at hlen ⊢; omega)
    have hrest := @ih (x :: r) (by simp only [hn, List.length_append, List.length_cons, List.length_nil]; omega)
      (by simp only [List.length_append, List.length_cons, List.length_nil] at hlen ⊢; omega)
    rw [List.length_append, List.length_singleton, List.range'_succ, List.foldl_cons]
    simp only [List.append_assoc, List.singleton_append, List.length_cons] at hround hrest ⊢
    rw [hround]
    exact hrest

variable {b : List UInt8}

theorem shift_eq {colonp : ℕ} (hcolonp : colonp ≤ b.length) (hroom : b.length < 16) :
    shift (b ++ List.replicate (16 - b.length) 0) colonp (b.length - colonp) =
      b.take colonp ++ (List.replicate (16 - b.length) 0 ++ b.drop colonp) := by
  obtain ⟨z, hz⟩ : ∃ z, 16 - b.length = z + 1 := ⟨16 - b.length - 1, by omega⟩
  have htake : (b.take colonp).length = colonp := List.length_take_of_le hcolonp
  have hdrop : (b.drop colonp).length = b.length - colonp := List.length_drop
  have hmoved := @foldl_shift (b.take colonp) (b.drop colonp) [] z (b.length - colonp) (by rw [hdrop]; rfl)
    (by rw [htake, hdrop, List.length_nil]; omega)
  rw [htake, hdrop, List.length_nil, List.append_nil, List.append_nil, ← List.append_assoc,
    List.take_append_drop] at hmoved
  rw [shift, hz]
  exact hmoved

/-! ### The string, cut at its colons -/

/-- What the parser does with the pieces between the colons: the octets that are written at the end, and where the
`::` was. An empty piece is the `::`, where it is not the last. -/
def readTokens : List UInt8 → Option ℕ → List (List UInt8) → Option (List UInt8 × Option ℕ)
  | b, colonp, [] => some (b, colonp)
  | b, colonp, t :: ts =>
    if t = [] then
      if ts = [] then some (b, colonp)
      else if colonp.isSome then none
      else readTokens b (some b.length) ts
    else if IsGroup t ∧ b.length + 2 ≤ 16 then readTokens (b ++ groupOctets t) colonp ts
    else none

/-- The address, from what is written and where the `::` was. -/
def place (b : List UInt8) : Option ℕ → Option (List UInt8)
  | some colonp =>
    if b.length = 16 then none
    else some (b.take colonp ++ (List.replicate (16 - b.length) 0 ++ b.drop colonp))
  | none => if b.length ≠ 16 then none else some b

theorem finish_between (hlen : b.length ≤ 16) (hcolonp : ∀ k, colonp = some k → k ≤ b.length) :
    finish (between b colonp) = place b colonp := by
  cases colonp with
  | none =>
    simp only [finish, between, place, ne_eq, not_true_eq_false, if_false, Option.bind_eq_bind, Option.bind_some]
    split_ifs with hfull
    · rw [hfull, Nat.sub_self, List.replicate_zero, List.append_nil]
    · rfl
  | some k =>
    simp only [finish, between, place, ne_eq, not_true_eq_false, if_false, Option.bind_eq_bind, Option.bind_some]
    split_ifs with hfull
    · rfl
    · rw [shift_eq (hcolonp k rfl) (by omega)]

theorem finish_within {b g : List UInt8} (hg : IsGroup g) :
    finish (within b colonp g) =
      if b.length + 2 ≤ 16 then finish (between (b ++ groupOctets g) colonp) else none := by
  have hseen : (within b colonp g).seenXdigits ≠ 0 := fun h => hg.ne_nil (List.length_eq_zero_iff.mp h)
  rw [finish, if_pos hseen]
  split_ifs with hfull hroom hroom
  · exact absurd hroom (Nat.not_le.mpr hfull)
  · rfl
  · rw [store_within hg hroom]
    rfl
  · exact absurd (Nat.not_lt.mp hfull) hroom

theorem loop_group {b g rest : List UInt8} {colonp : Option ℕ} (hg : IsGroup g) :
    loop (between b colonp) (g ++ rest) = loop (within b colonp g) rest := by
  have hlen : (between b colonp).seenXdigits + g.length ≤ 4 := by
    rw [between, Nat.zero_add]
    exact hg.length_le
  have hval : (between b colonp).val.toNat < 16 ^ (between b colonp).seenXdigits := Nat.one_pos
  rw [loop_digits hg.digits hval hlen]
  simp only [between, within, Nat.zero_add]
  rfl

/-- A colon behind a group. -/
theorem loop_group_colon {b g rest : List UInt8} (hg : IsGroup g) :
    loop (between b colonp) (g ++ colon :: rest) =
      if b.length + 2 ≤ 16 then loop (between (b ++ groupOctets g) colonp) rest else none := by
  have hseen : (within b colonp g).seenXdigits ≠ 0 := fun h => hg.ne_nil (List.length_eq_zero_iff.mp h)
  rw [loop_group hg, loop, xdigit_colon]
  simp only [if_true, hseen, if_false]
  split_ifs with hfull hroom hroom
  · exact absurd hroom (Nat.not_le.mpr hfull)
  · rfl
  · rw [store_within hg hroom]
  · exact absurd (Nat.not_lt.mp hfull) hroom

theorem loop_colon {b rest : List UInt8} :
    loop (between b colonp) (colon :: rest) =
      if colonp.isSome then none else loop (between b (some b.length)) rest := by
  rw [loop, xdigit_colon]
  simp only [if_true]
  rfl

/-- The parser reads a string as `readTokens` reads its pieces. -/
theorem parse_intercalate {ts : List (List UInt8)} (hne : ts ≠ []) (hcolon : ∀ t ∈ ts, colon ∉ t) {b : List UInt8}
    {colonp : Option ℕ} (hlen : b.length ≤ 16) (hcolonp : ∀ k, colonp = some k → k ≤ b.length) :
    (loop (between b colonp) ([colon].intercalate ts)).bind finish =
      (readTokens b colonp ts).bind fun r => place r.1 r.2 := by
  induction ts generalizing b colonp with
  | nil => exact absurd rfl hne
  | cons t ts ih =>
    have hcolonT : colon ∉ t := hcolon t List.mem_cons_self
    have hnotGroup : ∀ rest, t ≠ [] → ¬ IsGroup t → loop (between b colonp) (t ++ rest) = none := by
      intro rest ht hg
      refine loop_eq_none hcolonT (fun hdigits => hg ⟨ht, ?_, hdigits.1⟩) (Nat.zero_le 4)
      have := hdigits.2
      rwa [between, Nat.zero_add] at this
    have hstoredColonp : ∀ k, colonp = some k → k ≤ (b ++ groupOctets t).length := by
      intro k hk
      rw [List.length_append]
      exact Nat.le_add_right_of_le (hcolonp k hk)
    cases ts with
    | nil =>
      rw [List.intercalate_singleton, readTokens]
      by_cases ht : t = []
      · rw [ht, loop, if_pos rfl, if_pos rfl]
        exact finish_between hlen hcolonp
      · rw [if_neg ht]
        by_cases hg : IsGroup t
        · have hread := @loop_group b t [] colonp hg
          rw [List.append_nil, loop] at hread
          rw [hread, Option.bind_some, finish_within hg]
          by_cases hroom : b.length + 2 ≤ 16
          · rw [if_pos hroom, if_pos ⟨hg, hroom⟩, readTokens, Option.bind_some]
            exact finish_between (by rwa [List.length_append, length_groupOctets]) hstoredColonp
          · rw [if_neg hroom, if_neg (fun h => hroom h.2), Option.bind_none]
        · have hread := hnotGroup [] ht hg
          rw [List.append_nil] at hread
          rw [hread, if_neg (fun h => hg h.1), Option.bind_none, Option.bind_none]
    | cons t' ts =>
      rw [List.intercalate_cons_cons, List.append_assoc, List.singleton_append, readTokens]
      by_cases ht : t = []
      · rw [if_pos ht, if_neg (List.cons_ne_nil t' ts), ht, List.nil_append, loop_colon]
        split_ifs with hsecond
        · rfl
        · exact ih (List.cons_ne_nil t' ts) (fun u hu => hcolon u (List.mem_cons_of_mem _ hu)) hlen
            (fun k hk => Nat.le_of_eq (Option.some.inj hk).symm)
      · rw [if_neg ht]
        by_cases hg : IsGroup t
        · rw [loop_group_colon hg]
          by_cases hroom : b.length + 2 ≤ 16
          · rw [if_pos hroom, if_pos ⟨hg, hroom⟩]
            exact ih (List.cons_ne_nil t' ts) (fun u hu => hcolon u (List.mem_cons_of_mem _ hu))
              (by rwa [List.length_append, length_groupOctets]) hstoredColonp
          · rw [if_neg hroom, if_neg (fun h => hroom h.2), Option.bind_none, Option.bind_none]
        · rw [hnotGroup _ ht hg, if_neg (fun h => hg h.1), Option.bind_none, Option.bind_none]

/-! ### What the pieces are -/

theorem IsGroup.colon_not_mem {g : List UInt8} (hg : IsGroup g) : colon ∉ g := by
  intro hmem
  have hdigit := hg.digits colon hmem
  rw [xdigit_colon] at hdigit
  exact Bool.noConfusion hdigit

theorem length_flatMap_groupOctets (gs : List (List UInt8)) : (gs.flatMap groupOctets).length = 2 * gs.length := by
  induction gs with
  | nil => rfl
  | cons g gs ih =>
    rw [List.flatMap_cons, List.length_append, length_groupOctets, ih, List.length_cons]
    omega

/-- `readTokens` goes over groups. -/
theorem readTokens_append {gs ts : List (List UInt8)} (hgs : ∀ g ∈ gs, IsGroup g) {b : List UInt8}
    {colonp : Option ℕ} (hlen : b.length ≤ 16) :
    readTokens b colonp (gs ++ ts) =
      if b.length + 2 * gs.length ≤ 16 then readTokens (b ++ gs.flatMap groupOctets) colonp ts else none := by
  induction gs generalizing b with
  | nil => rw [List.nil_append, List.flatMap_nil, List.append_nil, List.length_nil, if_pos (by omega)]
  | cons g gs ih =>
    have hg : IsGroup g := hgs g List.mem_cons_self
    rw [List.cons_append, readTokens, if_neg hg.ne_nil, List.length_cons]
    by_cases hroom : b.length + 2 ≤ 16
    · have hlen' : (b ++ groupOctets g).length = b.length + 2 := by rw [List.length_append, length_groupOctets]
      rw [if_pos ⟨hg, hroom⟩, ih (fun g' hg' => hgs g' (List.mem_cons_of_mem _ hg')) (by rwa [hlen']), hlen',
        List.flatMap_cons, List.append_assoc]
      have hsum : b.length + 2 + 2 * gs.length = b.length + 2 * (gs.length + 1) := by omega
      rw [hsum]
    · rw [if_neg (fun h => hroom h.2), if_neg (by omega)]

theorem exists_groups (ts : List (List UInt8)) :
    ∃ gs rest, ts = gs ++ rest ∧ (∀ g ∈ gs, IsGroup g) ∧ ∀ t, rest.head? = some t → ¬ IsGroup t := by
  induction ts with
  | nil => exact ⟨[], [], rfl, fun g hg => absurd hg List.not_mem_nil, fun t ht => nomatch ht⟩
  | cons t ts ih =>
    by_cases ht : IsGroup t
    · obtain ⟨gs, rest, rfl, hgs, hrest⟩ := ih
      exact ⟨t :: gs, rest, rfl, List.forall_mem_cons.mpr ⟨ht, hgs⟩, hrest⟩
    · refine ⟨[], t :: ts, rfl, fun g hg => absurd hg List.not_mem_nil, fun t' ht' => ?_⟩
      rwa [← Option.some.inj ht']

/-- `ts` are the groups `gs`, and perhaps an empty piece behind them: a colon at the end. -/
def Ends (ts gs : List (List UInt8)) : Prop := ts = gs ∨ ts = gs ++ [[]]

theorem readTokens_ends {ts gs : List (List UInt8)} (hends : Ends ts gs) (hgs : ∀ g ∈ gs, IsGroup g)
    (hroom : b.length + 2 * gs.length ≤ 16) : readTokens b colonp ts = some (b ++ gs.flatMap groupOctets, colonp) := by
  rcases hends with rfl | rfl
  · have hread := @readTokens_append ts [] hgs b colonp (by omega)
    rwa [List.append_nil, if_pos hroom] at hread
  · rw [readTokens_append hgs (by omega), if_pos hroom]
    rfl

variable {ts : List (List UInt8)}

/-- Groups to the end, or groups up to the `::`. -/
theorem readTokens_eq_some {r : List UInt8 × Option ℕ} (hread : readTokens b colonp ts = some r)
    (hlen : b.length ≤ 16) :
    ∃ gs, (∀ g ∈ gs, IsGroup g) ∧ b.length + 2 * gs.length ≤ 16 ∧
      ((Ends ts gs ∧ r = (b ++ gs.flatMap groupOctets, colonp)) ∨
        ∃ ts', ts' ≠ [] ∧ ts = gs ++ [] :: ts' ∧ colonp = none ∧
          readTokens (b ++ gs.flatMap groupOctets) (some (b ++ gs.flatMap groupOctets).length) ts' = some r) := by
  obtain ⟨gs, rest, rfl, hgs, hrest⟩ := exists_groups ts
  rw [readTokens_append hgs hlen] at hread
  split_ifs at hread with hroom
  refine ⟨gs, hgs, hroom, ?_⟩
  cases rest with
  | nil => exact .inl ⟨.inl (List.append_nil gs), (Option.some.inj hread).symm⟩
  | cons t ts' =>
    have ht : ¬ IsGroup t := hrest t rfl
    rw [readTokens] at hread
    split_ifs at hread with hempty hlast hsome hgroup
    · exact .inl ⟨.inr (by rw [hempty, hlast]), (Option.some.inj hread).symm⟩
    · refine .inr ⟨ts', hlast, by rw [hempty], ?_, hread⟩
      rwa [Bool.not_eq_true, Option.isSome_eq_false_iff, Option.isNone_iff_eq_none] at hsome
    · exact absurd hgroup.1 ht

/-! ### The text -/

theorem intercalate_append {ts us : List (List UInt8)} (hts : ts ≠ []) (hus : us ≠ []) :
    [colon].intercalate (ts ++ us) = [colon].intercalate ts ++ colon :: [colon].intercalate us := by
  induction ts with
  | nil => exact absurd rfl hts
  | cons t ts ih =>
    cases ts with
    | nil =>
      rw [List.singleton_append, List.intercalate_cons_of_ne_nil hus, List.intercalate_singleton, List.append_assoc]
      rfl
    | cons t' ts =>
      rw [List.cons_append, List.intercalate_cons_of_ne_nil (List.append_ne_nil_of_right_ne_nil _ hus),
        ih (List.cons_ne_nil _ _), List.intercalate_cons_of_ne_nil (List.cons_ne_nil _ _), List.append_assoc,
        List.append_assoc, List.append_assoc]

theorem intercalate_nil_cons (hts : ts ≠ []) : [colon].intercalate ([] :: ts) = colon :: [colon].intercalate ts := by
  rw [List.intercalate_cons_of_ne_nil hts]
  rfl

variable {gs : List (List UInt8)}

theorem head?_groupsText (hgs : ∀ g ∈ gs, IsGroup g) (hne : gs ≠ []) (rest : List UInt8) :
    ∃ ch, (groupsText gs ++ rest).head? = some ch ∧ ch ≠ colon := by
  obtain ⟨g, gs, rfl⟩ := List.exists_cons_of_ne_nil hne
  have hg : IsGroup g := hgs g List.mem_cons_self
  obtain ⟨ch, g', rfl⟩ := List.exists_cons_of_ne_nil hg.ne_nil
  refine ⟨ch, ?_, fun h => hg.colon_not_mem (h ▸ List.mem_cons_self)⟩
  cases gs with
  | nil => rw [groupsText, List.intercalate_singleton, List.cons_append, List.head?_cons]
  | cons g'' gs =>
    rw [groupsText, List.intercalate_cons_of_ne_nil (List.cons_ne_nil _ _), List.cons_append, List.cons_append,
      List.cons_append, List.head?_cons]

/-- The text of groups ends with a digit. -/
theorem getLast?_groupsText (hgs : ∀ g ∈ gs, IsGroup g) (hne : gs ≠ []) (s : List UInt8) :
    (s ++ groupsText gs).getLast? ≠ some colon := by
  obtain ⟨gs, g, rfl⟩ : ∃ gs' g, gs = gs' ++ [g] := ⟨_, _, (List.dropLast_concat_getLast hne).symm⟩
  have hg : IsGroup g := hgs g (List.mem_append_right _ List.mem_cons_self)
  have hlast : ∃ u, s ++ groupsText (gs ++ [g]) = u ++ g := by
    by_cases hgs' : gs = []
    · exact ⟨s, by rw [hgs', List.nil_append, groupsText, List.intercalate_singleton]⟩
    · refine ⟨s ++ ([colon].intercalate gs ++ [colon]), ?_⟩
      rw [groupsText, intercalate_append hgs' (List.cons_ne_nil _ _), List.intercalate_singleton, List.append_assoc,
        List.append_assoc]
      rfl
  obtain ⟨u, hu⟩ := hlast
  rw [hu, List.getLast?_append, List.getLast?_eq_some_getLast hg.ne_nil, Option.some_or]
  exact fun h => hg.colon_not_mem (Option.some.inj h ▸ List.getLast_mem hg.ne_nil)

variable {before after : List (List UInt8)}

theorem getLast?_compressed (hafter : ∀ g ∈ after, IsGroup g) (hne : after ≠ []) :
    (groupsText before ++ colon :: colon :: groupsText after).getLast? ≠ some colon := by
  have hsplit : groupsText before ++ colon :: colon :: groupsText after =
      (groupsText before ++ [colon, colon]) ++ groupsText after := by
    rw [List.append_assoc]
    rfl
  rw [hsplit]
  exact getLast?_groupsText hafter hne _

theorem skipColon_groupsText (hgs : ∀ g ∈ gs, IsGroup g) (hne : gs ≠ []) (rest : List UInt8) :
    skipColon (groupsText gs ++ rest) = some (groupsText gs ++ rest) := by
  obtain ⟨ch, hch, hcolon⟩ := head?_groupsText hgs hne rest
  rw [skipColon, hch, if_neg (fun h => hcolon (Option.some.inj h))]

theorem parse_of_skipColon {s : List UInt8} (hskip : skipColon s = some ([colon].intercalate ts)) (hne : ts ≠ [])
    (hcolon : ∀ t ∈ ts, colon ∉ t) : parse s = (readTokens [] none ts).bind fun r => place r.1 r.2 := by
  have hloop := @parse_intercalate ts hne hcolon [] none (Nat.zero_le 16) (fun k hk => nomatch hk)
  rw [parse, hskip]
  exact hloop

/-! ### What the parser accepts -/

theorem colon_not_mem_of_groups (hgs : ∀ g ∈ gs, IsGroup g) : ∀ t ∈ gs, colon ∉ t :=
  fun t ht => (hgs t ht).colon_not_mem

theorem Ends.colon_not_mem {ts gs : List (List UInt8)} (hends : Ends ts gs) (hgs : ∀ g ∈ gs, IsGroup g) :
    ∀ t ∈ ts, colon ∉ t := by
  rcases hends with rfl | rfl
  · exact colon_not_mem_of_groups hgs
  · intro t ht
    rcases List.mem_append.mp ht with ht | ht
    · exact colon_not_mem_of_groups hgs t ht
    · rw [List.mem_singleton.mp ht]
      exact List.not_mem_nil

/-- The text of pieces that are groups: that of the groups, or a colon more where there are groups. -/
theorem Ends.intercalate {ts gs : List (List UInt8)} (hends : Ends ts gs) :
    [colon].intercalate ts = groupsText gs ∨ gs ≠ [] ∧ [colon].intercalate ts = groupsText gs ++ [colon] := by
  rcases hends with rfl | rfl
  · exact .inl rfl
  · by_cases hgs : gs = []
    · exact .inl (by rw [hgs, List.nil_append, List.intercalate_singleton]; rfl)
    · exact .inr ⟨hgs, by rw [intercalate_append hgs (List.cons_ne_nil _ _), List.intercalate_singleton]; rfl⟩

/-- The pieces of the text of groups, and of what has a colon more. -/
theorem exists_ends {u : List UInt8} (hu : u = groupsText gs ∨ gs ≠ [] ∧ u = groupsText gs ++ [colon]) :
    ∃ ts, ts ≠ [] ∧ Ends ts gs ∧ u = [colon].intercalate ts := by
  rcases hu with rfl | ⟨hgs, rfl⟩
  · by_cases hgs : gs = []
    · exact ⟨[[]], List.cons_ne_nil _ _, .inr (by rw [hgs, List.nil_append]),
        by rw [hgs, List.intercalate_singleton]; rfl⟩
    · exact ⟨gs, hgs, .inl rfl, rfl⟩
  · exact ⟨gs ++ [[]], List.append_ne_nil_of_left_ne_nil hgs _, .inr rfl,
      by rw [intercalate_append hgs (List.cons_ne_nil _ _), List.intercalate_singleton]; rfl⟩

/-- The octets of the text with `::`. -/
def compressedOctets (before after : List (List UInt8)) : List UInt8 :=
  before.flatMap groupOctets ++ (List.replicate (16 - 2 * (before.length + after.length)) 0 ++
    after.flatMap groupOctets)

theorem ne_nil_of_eight (hlen : gs.length = 8) : gs ≠ [] := by
  rintro rfl
  exact absurd hlen (by decide)

/-- Eight groups are accepted, also with a colon behind them. -/
theorem parse_full {s : List UInt8} (hgs : ∀ g ∈ gs, IsGroup g) (hlen : gs.length = 8)
    (hs : s = groupsText gs ∨ s = groupsText gs ++ [colon]) : parse s = some (gs.flatMap groupOctets) := by
  have hne : gs ≠ [] := ne_nil_of_eight hlen
  obtain ⟨ts, htsNe, hends, hts⟩ := exists_ends (hs.imp_right fun h => ⟨hne, h⟩)
  have hskip : skipColon s = some ([colon].intercalate ts) := by
    rw [← hts]
    rcases hs with rfl | rfl
    · have hkept := skipColon_groupsText hgs hne []
      rwa [List.append_nil] at hkept
    · exact skipColon_groupsText hgs hne [colon]
  have hroom : ([] : List UInt8).length + 2 * gs.length ≤ 16 := by
    rw [hlen]
    decide
  have hfull : (gs.flatMap groupOctets).length = 16 := by rw [length_flatMap_groupOctets, hlen]
  rw [parse_of_skipColon hskip htsNe (hends.colon_not_mem hgs), readTokens_ends hends hgs hroom, Option.bind_some,
    List.nil_append, place, if_neg (fun h => h hfull)]

theorem place_compressed (hlen : before.length + after.length ≤ 7) :
    place (before.flatMap groupOctets ++ after.flatMap groupOctets) (some (before.flatMap groupOctets).length) =
      some (compressedOctets before after) := by
  have htotal : (before.flatMap groupOctets ++ after.flatMap groupOctets).length =
      2 * (before.length + after.length) := by
    rw [List.length_append, length_flatMap_groupOctets, length_flatMap_groupOctets, Nat.mul_add]
  rw [place, htotal, if_neg (by omega), List.take_left, List.drop_left, compressedOctets]

/-- Fewer groups with a `::` are accepted, also with a colon behind the last. -/
theorem parse_compressed {s u : List UInt8} (hbefore : ∀ g ∈ before, IsGroup g) (hafter : ∀ g ∈ after, IsGroup g)
    (hlen : before.length + after.length ≤ 7) (hs : s = groupsText before ++ colon :: colon :: u)
    (hu : u = groupsText after ∨ after ≠ [] ∧ u = groupsText after ++ [colon]) :
    parse s = some (compressedOctets before after) := by
  obtain ⟨ts, htsNe, hends, hts⟩ := exists_ends hu
  have htext : [colon].intercalate ([] :: ts) = colon :: u := by rw [intercalate_nil_cons htsNe, hts]
  have hskip : skipColon s = some ([colon].intercalate (before ++ [] :: ts)) := by
    by_cases hempty : before = []
    · rw [hs, hempty, List.nil_append, htext]
      rfl
    · rw [intercalate_append hempty (List.cons_ne_nil _ _), htext, hs]
      exact skipColon_groupsText hbefore hempty _
  have hcolon : ∀ t ∈ before ++ [] :: ts, colon ∉ t := by
    intro t ht
    rcases List.mem_append.mp ht with ht | ht
    · exact colon_not_mem_of_groups hbefore t ht
    · rcases List.mem_cons.mp ht with rfl | ht
      · exact List.not_mem_nil
      · exact hends.colon_not_mem hafter t ht
  have hgroups := @readTokens_append before ([] :: ts) hbefore [] none (Nat.zero_le 16)
  have hroom : (before.flatMap groupOctets).length + 2 * after.length ≤ 16 := by
    rw [length_flatMap_groupOctets]
    omega
  rw [List.length_nil, if_pos (by omega), List.nil_append, readTokens, if_pos rfl, if_neg htsNe, Option.isSome_none,
    if_neg Bool.false_ne_true, readTokens_ends hends hafter hroom] at hgroups
  rw [parse_of_skipColon hskip (List.append_ne_nil_of_right_ne_nil _ (List.cons_ne_nil _ _)) hcolon, hgroups,
    Option.bind_some]
  exact place_compressed hlen

theorem exists_pieces (address : List UInt8) :
    ∃ ts, ts ≠ [] ∧ (∀ t ∈ ts, colon ∉ t) ∧ address = [colon].intercalate ts := by
  induction address with
  | nil =>
    exact ⟨[[]], List.cons_ne_nil _ _, fun t ht => List.mem_singleton.mp ht ▸ List.not_mem_nil,
      List.intercalate_singleton.symm⟩
  | cons ch address ih =>
    obtain ⟨ts, hts, hcolon, rfl⟩ := ih
    by_cases hch : ch = colon
    · refine ⟨[] :: ts, List.cons_ne_nil _ _, List.forall_mem_cons.mpr ⟨List.not_mem_nil, hcolon⟩, ?_⟩
      rw [intercalate_nil_cons hts, hch]
    · obtain ⟨t, ts, rfl⟩ := List.exists_cons_of_ne_nil hts
      obtain ⟨ht, hrest⟩ := List.forall_mem_cons.mp hcolon
      refine ⟨(ch :: t) :: ts, List.cons_ne_nil _ _, List.forall_mem_cons.mpr ⟨fun hmem => ?_, hrest⟩, ?_⟩
      · rcases List.mem_cons.mp hmem with h | h
        · exact hch h.symm
        · exact ht h
      · cases ts with
        | nil => rw [List.intercalate_singleton, List.intercalate_singleton]
        | cons t' ts => rw [List.intercalate_cons_cons, List.intercalate_cons_cons, List.cons_append, List.cons_append]

theorem skipColon_eq_some {s address : List UInt8} (h : skipColon s = some address) :
    (s = address ∧ address.head? ≠ some colon) ∨ (s = colon :: address ∧ address.head? = some colon) := by
  rw [skipColon] at h
  split_ifs at h with hfirst hsecond
  · obtain ⟨s, rfl⟩ := List.head?_eq_some_iff.mp hfirst
    rw [← Option.some.inj h]
    exact .inr ⟨rfl, Decidable.not_not.mp hsecond⟩
  · rw [← Option.some.inj h]
    exact .inl ⟨rfl, hfirst⟩

theorem eq_of_skipColon_groups {s rest : List UInt8} (hgs : ∀ g ∈ gs, IsGroup g) (hne : gs ≠ [])
    (h : skipColon s = some (groupsText gs ++ rest)) : s = groupsText gs ++ rest := by
  obtain ⟨ch, hch, hcolon⟩ := head?_groupsText hgs hne rest
  rcases skipColon_eq_some h with ⟨heq, -⟩ | ⟨-, hhead⟩
  · exact heq
  · rw [hch] at hhead
    exact absurd (Option.some.inj hhead) hcolon

variable {s out : List UInt8}

/-- What the parser accepts is one of these. -/
theorem exists_of_parse (h : parse s = some out) :
    (∃ gs, (∀ g ∈ gs, IsGroup g) ∧ gs.length = 8 ∧ out = gs.flatMap groupOctets ∧
        (s = groupsText gs ∨ s = groupsText gs ++ [colon])) ∨
      ∃ before after u, (∀ g ∈ before, IsGroup g) ∧ (∀ g ∈ after, IsGroup g) ∧ before.length + after.length ≤ 7 ∧
        out = compressedOctets before after ∧ s = groupsText before ++ colon :: colon :: u ∧
        (u = groupsText after ∨ after ≠ [] ∧ u = groupsText after ++ [colon]) := by
  rw [parse, Option.bind_eq_bind, Option.bind_eq_some_iff] at h
  obtain ⟨address, hskip, hparse⟩ := h
  obtain ⟨ts, htsNe, hcolon, rfl⟩ := exists_pieces address
  have hloop := @parse_intercalate ts htsNe hcolon [] none (Nat.zero_le 16) (fun k hk => nomatch hk)
  obtain ⟨⟨b, colonp⟩, hread, hplace⟩ := Option.bind_eq_some_iff.mp (hloop.symm.trans hparse)
  obtain ⟨gs, hgs, hroom, ⟨hends, hr⟩ | ⟨ts', hts'Ne, rfl, -, hread'⟩⟩ := readTokens_eq_some hread (Nat.zero_le 16)
  · obtain ⟨rfl, rfl⟩ := Prod.mk.inj hr
    rw [List.nil_append, place, length_flatMap_groupOctets] at hplace
    split_ifs at hplace with hfull
    have hlen : gs.length = 8 := by omega
    have hne : gs ≠ [] := ne_nil_of_eight hlen
    refine .inl ⟨gs, hgs, hlen, (Option.some.inj hplace).symm, ?_⟩
    rcases hends.intercalate with htext | ⟨-, htext⟩
    · rw [htext, ← List.append_nil (groupsText gs)] at hskip
      exact .inl ((eq_of_skipColon_groups hgs hne hskip).trans (List.append_nil _))
    · rw [htext] at hskip
      exact .inr (eq_of_skipColon_groups hgs hne hskip)
  · rw [List.nil_append] at hread'
    have hbefore : (gs.flatMap groupOctets).length = 2 * gs.length := length_flatMap_groupOctets gs
    obtain ⟨after, hafter, hroom', ⟨hends, hr⟩ | ⟨-, -, -, hsome, -⟩⟩ :=
      readTokens_eq_some hread' (by rw [List.length_nil] at hroom; omega)
    · obtain ⟨rfl, rfl⟩ := Prod.mk.inj hr
      have hlen : gs.length + after.length ≤ 7 := by
        rw [place, List.length_append, length_flatMap_groupOctets, length_flatMap_groupOctets] at hplace
        split_ifs at hplace with hfull
        omega
      rw [place_compressed hlen] at hplace
      refine .inr ⟨gs, after, [colon].intercalate ts', hgs, hafter, hlen, (Option.some.inj hplace).symm, ?_,
        hends.intercalate⟩
      by_cases hempty : gs = []
      · rw [hempty, List.nil_append, intercalate_nil_cons hts'Ne] at hskip
        rcases skipColon_eq_some hskip with ⟨-, hhead⟩ | ⟨heq, -⟩
        · exact absurd rfl hhead
        · rw [heq, hempty]
          rfl
      · rw [intercalate_append hempty (List.cons_ne_nil _ _), intercalate_nil_cons hts'Ne] at hskip
        exact eq_of_skipColon_groups hgs hempty hskip
    · exact nomatch hsome

/-! ### Where the parser meets the notation -/

/-- The text denotes an address and its octets are in the buffer; or it denotes none, and the buffer is as it was. -/
def Meets (s : List UInt8) : Prop :=
  ∀ addr, (∃ out, Denotes s out ∧ asciiToIpv6Host s addr = (true, out)) ∨
    (¬ ∃ out, Denotes s out) ∧ asciiToIpv6Host s addr = (false, addr)

/-- A text that does not end with `::`, and a colon behind it. -/
def HasTrailingColon (s : List UInt8) : Prop :=
  ∃ t out, s = t ++ [colon] ∧ Denotes t out ∧ t.getLast? ≠ some colon

theorem parse_of_denotes (h : Denotes s out) : parse s = some out := by
  cases h with
  | full hgs hlen => exact parse_full hgs hlen (.inl rfl)
  | compressed hbefore hafter hlen => exact parse_compressed hbefore hafter hlen rfl (.inl rfl)

theorem parse_trailing {t out : List UInt8} (h : Denotes t out) (hlast : t.getLast? ≠ some colon) :
    parse (t ++ [colon]) = some out := by
  cases h with
  | full hgs hlen => exact parse_full hgs hlen (.inr rfl)
  | @compressed before after hbefore hafter hlen =>
    have hne : after ≠ [] := by
      rintro rfl
      exact hlast (by rw [List.getLast?_append]; rfl)
    exact parse_compressed hbefore hafter hlen (by rw [List.append_assoc]; rfl) (.inr ⟨hne, rfl⟩)

/-- A text that ends with a colon ends with two. -/
theorem getLast?_of_denotes {t out : List UInt8} (h : Denotes (t ++ [colon]) out) : t.getLast? = some colon := by
  generalize hs : t ++ [colon] = s at h
  have hsLast : s.getLast? = some colon := by rw [← hs, List.getLast?_append]; rfl
  cases h with
  | @full gs hgs hlen =>
    have hne : gs ≠ [] := ne_nil_of_eight hlen
    exact absurd hsLast (getLast?_groupsText hgs hne [])
  | @compressed before after hbefore hafter hlen =>
    by_cases hne : after = []
    · have ht : t ++ [colon] = (groupsText before ++ [colon]) ++ [colon] := by
        rw [hs, hne, List.append_assoc]
        rfl
      rw [List.append_cancel_right ht, List.getLast?_append]
      rfl
    · exact absurd hsLast (getLast?_compressed hafter hne)

/-- What is accepted denotes the octets that are written, but for a colon at the end. -/
theorem denotes_of_parse (h : parse s = some out) : Denotes s out ∨ HasTrailingColon s := by
  rcases exists_of_parse h with
    ⟨gs, hgs, hlen, rfl, rfl | rfl⟩ | ⟨before, after, u, hbefore, hafter, hlen, rfl, rfl, rfl | ⟨hne, rfl⟩⟩
  · exact .inl (.full hgs hlen)
  · have hne : gs ≠ [] := by
      rintro rfl
      exact absurd hlen (by decide)
    exact .inr ⟨_, _, rfl, .full hgs hlen, getLast?_groupsText hgs hne []⟩
  · exact .inl (.compressed hbefore hafter hlen)
  · refine .inr ⟨_, _, ?_, .compressed hbefore hafter hlen, getLast?_compressed hafter hne⟩
    rw [List.append_assoc]
    rfl

/-- The parser accepts the notation and writes what it denotes, but for a colon that it overlooks at the end. -/
theorem meets_iff (s : List UInt8) : Meets s ↔ ¬ HasTrailingColon s := by
  constructor
  · rintro hmeets ⟨t, out, rfl, hden, hlast⟩
    have hparse := parse_trailing hden hlast
    rcases hmeets [] with ⟨out', hden', -⟩ | ⟨-, hfalse⟩
    · exact hlast (getLast?_of_denotes hden')
    · rw [asciiToIpv6Host, hparse] at hfalse
      exact Bool.noConfusion (Prod.mk.inj hfalse).1
  · intro hno addr
    cases hparse : parse s with
    | some out =>
      refine .inl ⟨out, (denotes_of_parse hparse).resolve_right hno, ?_⟩
      rw [asciiToIpv6Host, hparse]
    | none =>
      refine .inr ⟨?_, ?_⟩
      · rintro ⟨out, hden⟩
        exact Option.some_ne_none out ((parse_of_denotes hden).symm.trans hparse)
      · rw [asciiToIpv6Host, hparse]

/-- `1:2:3:4:5:6:7:8:`. -/
def colonAtEnd : List UInt8 := "1:2:3:4:5:6:7:8:".toList.map Char.toUInt8

/-- A colon behind eight groups is accepted. -/
theorem meets_colonAtEnd : ¬ Meets colonAtEnd := by
  intro hmeets
  have hparse : parse colonAtEnd = some [0, 1, 0, 2, 0, 3, 0, 4, 0, 5, 0, 6, 0, 7, 0, 8] := by decide +kernel
  rcases hmeets [] with ⟨out, hden, -⟩ | ⟨-, hfalse⟩
  · have htext : colonAtEnd = "1:2:3:4:5:6:7:8".toList.map Char.toUInt8 ++ [colon] := by decide
    rw [htext] at hden
    exact absurd (getLast?_of_denotes hden) (by decide)
  · rw [asciiToIpv6Host, hparse] at hfalse
    exact Bool.noConfusion (Prod.mk.inj hfalse).1

end Ipv6Text

end Ns3
