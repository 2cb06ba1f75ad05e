import Ns3.Network.PacketMetadata

/-!
# Items that are added at the tail

What `PacketMetadata::AddBig` and `UpdateTail` make of a list that was built by them alone, on a block that no other
list shares. `Chain` is such a list in its block: behind each item lies the next one, and each but the last has the
offset of the next. The offset that the last item has as its next is read by nobody.

* `items_of_holds` — the loops from the head to the tail read the items that were added.
* `Holds.add` — adding one item.
-/

namespace Ns3

open Lib

namespace PacketMetadata

/-- What can be seen of an item. -/
structure Item where
  uid : ℕ
  /-- The size of the header, trailer or payload. -/
  size : ℕ
  /-- Which header, trailer or payload of its type it is. -/
  chunkUid : ℕ
  /-- The start of what is left of it. -/
  fragmentStart : ℕ
  /-- The end of what is left of it. -/
  fragmentEnd : ℕ

/-- What can be seen of the item that was read. -/
def Item.of (item : SmallItem × ExtraItem) : Item :=
  ⟨item.1.typeUid / 2, item.1.size, item.1.chunkUid, item.2.fragmentStart, item.2.fragmentEnd⟩

/-- The numbers of an item have the sizes that their types give them. -/
structure Bounded (item : SmallItem × ExtraItem) : Prop where
  typeUid_lt : item.1.typeUid < 2 ^ 32
  size_lt : item.1.size < 2 ^ 32
  chunkUid_lt : item.1.chunkUid < 2 ^ 16
  fragmentStart_lt : item.2.fragmentStart < 2 ^ 32
  fragmentEnd_lt : item.2.fragmentEnd < 2 ^ 32

/-! ### Numbers -/

theorem length_appendValue (value : ℕ) : (appendValue value).length = getUleb128Size value := by
  rw [appendValue, length_leb128, getUleb128Size]
  split_ifs <;> rfl

theorem getUleb128Size_pos (value : ℕ) : 0 < getUleb128Size value := by
  rw [getUleb128Size]
  split_ifs <;> decide

theorem getUleb128Size_mono {a b : ℕ} (h : a ≤ b) : getUleb128Size a ≤ getUleb128Size b := by
  rw [getUleb128Size, getUleb128Size]
  split_ifs <;> omega

/-- A number is read back. -/
theorem readUleb128_append {value : ℕ} (h : value < 2 ^ 32) (rest : List UInt8) :
    readUleb128 (appendValue value ++ rest) = some (value, rest) := by
  have hread : readLeb128 4 (appendValue value ++ rest) = some (value, rest) := by
    rw [appendValue, getUleb128Size]
    split_ifs with h₁ h₂ h₃ h₄
    · exact readLeb128_append (by omega) (by omega) rest
    · exact readLeb128_append (by omega) (by omega) rest
    · exact readLeb128_append (by omega) (by omega) rest
    · exact readLeb128_append (by omega) (by omega) rest
    · exact readLeb128_append (by omega) (by omega) rest
  rw [readUleb128, hread, Option.map_some]
  change some (value % 2 ^ 32, rest) = _
  rw [Nat.mod_eq_of_lt h]

theorem length_append16 (value : ℕ) : (append16 value).length = 2 := length_littleEndian 2 value

theorem length_append32 (value : ℕ) : (append32 value).length = 4 := length_littleEndian 4 value

theorem ofLittleEndian_append16 {value : ℕ} (h : value < 2 ^ 16) : ofLittleEndian (append16 value) = value := by
  rw [append16, ofLittleEndian_littleEndian]
  exact Nat.mod_eq_of_lt h

/-! ### Reading an item -/

/-- The type of an item with the mark for its `ExtraItem`. -/
def bigUid (item : SmallItem) : ℕ := if item.typeUid % 2 = 1 then item.typeUid else item.typeUid + 1

theorem bigUid_spec {item : SmallItem} (h : item.typeUid < 2 ^ 32) :
    bigUid item < 2 ^ 32 ∧ bigUid item % 2 = 1 ∧ bigUid item / 2 = item.typeUid / 2 := by
  rw [bigUid]
  split_ifs <;> omega

/-- The octets of an item. -/
def bigSize (item : SmallItem × ExtraItem) : ℕ := 4 + (bigBody item.1 item.2).length

theorem length_bigItem (next prev : ℕ) (item : SmallItem × ExtraItem) :
    (bigItem next prev item.1 item.2).length = bigSize item := by
  simp only [bigItem, bigSize, List.length_append, length_append16]
  omega

theorem bigSize_eq (item : SmallItem × ExtraItem) :
    bigSize item = 10 + getUleb128Size (bigUid item.1) + getUleb128Size item.1.size +
      getUleb128Size item.2.fragmentStart + getUleb128Size item.2.fragmentEnd := by
  simp only [bigSize, bigBody, bigUid, List.length_append, length_appendValue, length_append16, length_append32]
  omega

theorem fourteen_le_bigSize (item : SmallItem × ExtraItem) : 14 ≤ bigSize item := by
  have h₁ := getUleb128Size_pos (bigUid item.1)
  have h₂ := getUleb128Size_pos item.1.size
  have h₃ := getUleb128Size_pos item.2.fragmentStart
  have h₄ := getUleb128Size_pos item.2.fragmentEnd
  rw [bigSize_eq]
  omega

/-- The item lies at the offset `p`, whatever its links are. -/
def Lies (l : List UInt8) (p : ℕ) (item : SmallItem × ExtraItem) : Prop :=
  p + bigSize item ≤ l.length ∧ slice l (p + 4) (bigSize item - 4) = bigBody item.1 item.2

theorem drop_eq_slice_append (l : List UInt8) (p n : ℕ) : l.drop p = slice l p n ++ l.drop (p + n) := by
  rw [slice, ← List.drop_drop, List.take_append_drop]

theorem Item.of_big {item : SmallItem × ExtraItem} (h : Bounded item) (next prev : ℕ) (packetUid : UInt64) :
    Item.of (⟨next, prev, bigUid item.1, item.1.size, ofLittleEndian (append16 item.1.chunkUid)⟩,
      ⟨item.2.fragmentStart, item.2.fragmentEnd, packetUid⟩) = Item.of item := by
  rw [ofLittleEndian_append16 h.chunkUid_lt]
  simp [Item.of, (bigUid_spec h.typeUid_lt).2.2]

/-- An item is read where it lies. -/
theorem readItems_of_lies {m : PacketMetadata} {p : ℕ} {item : SmallItem × ExtraItem}
    (hlies : Lies m.data.data p item) (hitem : Bounded item) (hlen : m.data.data.length < 2 ^ 16) :
    ∃ read, m.readItems p = some read ∧ Item.of read = Item.of item ∧
      read.1.next = ofLittleEndian (slice m.data.data p 2) := by
  obtain ⟨hroom, hbody⟩ := hlies
  have hfour := fourteen_le_bigSize item
  have hsize : m.data.size = m.data.data.length := Nat.mod_eq_of_lt hlen
  obtain ⟨htype, hsz, hchunk, hstart, hend⟩ := id hitem
  obtain ⟨htype', hbit, -⟩ := bigUid_spec htype
  have hnext : (slice m.data.data p 2).length = 2 := length_slice (by omega)
  have hprev : (slice m.data.data (p + 2) 2).length = 2 := length_slice (by omega)
  have hend' : p + 4 + (bigSize item - 4) = p + bigSize item := by omega
  have hdrop : m.data.data.drop p = slice m.data.data p 2 ++ (slice m.data.data (p + 2) 2 ++
      (bigBody item.1 item.2 ++ m.data.data.drop (p + bigSize item))) := by
    rw [drop_eq_slice_append _ p 2, drop_eq_slice_append _ (p + 2) 2,
      drop_eq_slice_append _ (p + 2 + 2) (bigSize item - 4), hbody, hend']
  have hrest : m.data.data.length - (m.data.data.drop (p + bigSize item)).length ≤ m.data.size := by
    rw [hsize]
    exact Nat.sub_le _ _
  let read : SmallItem × ExtraItem :=
    (⟨ofLittleEndian (slice m.data.data p 2), ofLittleEndian (slice m.data.data (p + 2) 2), bigUid item.1, item.1.size,
        ofLittleEndian (append16 item.1.chunkUid)⟩,
      ⟨item.2.fragmentStart, item.2.fragmentEnd, signExtend (ofLittleEndian (append32 item.2.packetUid.toNat))⟩)
  refine ⟨read, ?_, ?_, rfl⟩
  · have hbig : bigBody item.1 item.2 = appendValue (bigUid item.1) ++ (appendValue item.1.size ++
        (append16 item.1.chunkUid ++ (appendValue item.2.fragmentStart ++ (appendValue item.2.fragmentEnd ++
          append32 item.2.packetUid.toNat)))) := rfl
    rw [readItems, if_pos (by omega), hdrop, hbig]
    simp only [List.append_assoc, readOctets_append hnext, readOctets_append hprev, readUleb128_append htype',
      readUleb128_append hsz, readOctets_append (length_append16 _), readUleb128_append hstart,
      readUleb128_append hend, readOctets_append (length_append32 _), hbit, hrest, if_true,
      Option.bind_eq_bind, Option.bind_some]
    rfl
  · exact Item.of_big hitem _ _ _

/-! ### Items one behind the other -/

/-- The octets of items. -/
def total (items : List (SmallItem × ExtraItem)) : ℕ := (items.map bigSize).sum

@[simp] theorem total_nil : total [] = 0 := rfl

@[simp] theorem total_cons (item : SmallItem × ExtraItem) (items : List (SmallItem × ExtraItem)) :
    total (item :: items) = bigSize item + total items := by
  simp [total]

@[simp] theorem total_append (items items' : List (SmallItem × ExtraItem)) :
    total (items ++ items') = total items + total items' := by
  simp [total]

theorem length_le_total (items : List (SmallItem × ExtraItem)) : 14 * items.length ≤ total items := by
  induction items with
  | nil => exact Nat.le_refl 0
  | cons item items ih =>
    have := fourteen_le_bigSize item
    rw [total_cons, List.length_cons]
    omega

theorem total_dropLast_add {items : List (SmallItem × ExtraItem)} (h : items ≠ []) :
    total items.dropLast + bigSize (items.getLast h) = total items := by
  conv_rhs => rw [← List.dropLast_append_getLast h]
  simp

theorem total_dropLast_lt {items : List (SmallItem × ExtraItem)} (h : items ≠ []) :
    total items.dropLast + 14 ≤ total items := by
  have := total_dropLast_add h
  have := fourteen_le_bigSize (items.getLast h)
  omega

/-- From the offset `p` on the items lie one behind the other, each linked to the next. -/
def Chain (l : List UInt8) : ℕ → List (SmallItem × ExtraItem) → Prop
  | _, [] => True
  | p, [item] => Lies l p item
  | p, item :: next :: items =>
    Lies l p item ∧ slice l p 2 = append16 (p + bigSize item) ∧ Chain l (p + bigSize item) (next :: items)

variable {l l' x : List UInt8} {p q : ℕ} {item : SmallItem × ExtraItem} {items : List (SmallItem × ExtraItem)}

theorem Lies.congr (h : Lies l p item) (hlen : p + bigSize item ≤ l'.length)
    (hslice : slice l' (p + 4) (bigSize item - 4) = slice l (p + 4) (bigSize item - 4)) : Lies l' p item :=
  ⟨hlen, hslice.trans h.2⟩

theorem Lies.overwrite (h : Lies l p item) (hq : q + x.length ≤ l.length)
    (hoff : q + x.length ≤ p + 4 ∨ p + bigSize item ≤ q) : Lies (overwrite l q x) p item := by
  refine h.congr (by rw [length_overwrite hq]; exact h.1) ?_
  rcases hoff with hoff | hoff
  · exact slice_overwrite_of_ge hoff (by omega)
  · have hfour := fourteen_le_bigSize item
    exact slice_overwrite_of_le (by omega) (by omega)

section

variable (h : Chain l p items)
include h

theorem Chain.congr (hlen : p + total items ≤ l'.length)
    (hslice : ∀ q n, p ≤ q → q + n ≤ p + total items → slice l' q n = slice l q n) : Chain l' p items := by
  induction items generalizing p with
  | nil => trivial
  | cons item items ih =>
    have hfour := fourteen_le_bigSize item
    rw [total_cons] at hlen hslice
    cases items with
    | nil => exact Lies.congr h (by omega) (hslice _ _ (by omega) (by omega))
    | cons next items =>
      obtain ⟨hlies, hlink, hrest⟩ := h
      refine ⟨hlies.congr (by omega) (hslice _ _ (by omega) (by omega)), ?_, ?_⟩
      · exact (hslice _ _ (by omega) (by omega)).trans hlink
      · exact ih hrest (by omega) fun q n hq hqn => hslice q n (by omega) (by omega)

theorem Chain.le_length (hne : items ≠ []) : p + total items ≤ l.length := by
  induction items generalizing p with
  | nil => exact absurd rfl hne
  | cons item items ih =>
    cases items with
    | nil => simpa using h.1
    | cons next items =>
      have hrest := ih h.2.2 (List.cons_ne_nil _ _)
      rw [total_cons]
      omega

theorem Chain.overwrite (hlen : q + x.length ≤ l.length) (hq : q + x.length ≤ p ∨ p + total items ≤ q) :
    Chain (overwrite l q x) p items := by
  rcases eq_or_ne items [] with rfl | hne
  · trivial
  refine h.congr (Nat.le_trans (h.le_length hne) (Nat.le_of_eq (length_overwrite hlen).symm)) fun q' n hq' hn => ?_
  rcases hq with hq | hq
  · exact slice_overwrite_of_ge (by omega) (by omega)
  · exact slice_overwrite_of_le (by omega) (by omega)

/-- A write to the link from the first item back. -/
theorem Chain.overwrite_prev (hne : items ≠ []) (hx : x.length = 2) : Chain (Lib.overwrite l (p + 2) x) p items := by
  cases items with
  | nil => exact absurd rfl hne
  | cons item items =>
    have hfour := fourteen_le_bigSize item
    cases items with
    | nil =>
      have hroom := h.1
      exact Lies.overwrite h (by omega) (.inl (by omega))
    | cons next items =>
      obtain ⟨hlies, hlink, hrest⟩ := h
      have hroom := hlies.1
      refine ⟨hlies.overwrite (by omega) (.inl (by omega)), ?_, hrest.overwrite (by omega) (.inl (by omega))⟩
      exact (slice_overwrite_of_le (by omega) (by omega)).trans hlink

/-- A write to the link from the last item on. -/
theorem Chain.overwrite_next (hne : items ≠ []) (hx : x.length = 2) :
    Chain (Lib.overwrite l (p + total items.dropLast) x) p items := by
  induction items generalizing p with
  | nil => exact absurd rfl hne
  | cons item items ih =>
    have hfour := fourteen_le_bigSize item
    have hle := h.le_length hne
    cases items with
    | nil =>
      have hroom := h.1
      exact Lies.overwrite h (by simp; omega) (.inl (by simp; omega))
    | cons next items =>
      obtain ⟨hlies, hlink, hrest⟩ := h
      have hlast := total_dropLast_lt (List.cons_ne_nil next items)
      have hdrop : p + total (item :: next :: items).dropLast =
          p + bigSize item + total (next :: items).dropLast := by
        rw [List.dropLast_cons_cons, total_cons]
        omega
      rw [total_cons] at hle
      rw [hdrop]
      refine ⟨hlies.overwrite (by omega) (.inr (by omega)), ?_, ih hrest (List.cons_ne_nil _ _)⟩
      exact (slice_overwrite_of_le (by omega) (by omega)).trans hlink

/-- One item more, linked to the last. -/
theorem Chain.append (hlies : Lies l (p + total items) item)
    (hlink : items ≠ [] → slice l (p + total items.dropLast) 2 = append16 (p + total items)) :
    Chain l p (items ++ [item]) := by
  induction items generalizing p with
  | nil =>
    change Lies l p item
    simpa using hlies
  | cons first items ih =>
    rw [total_cons, ← Nat.add_assoc] at hlies
    have hlink := hlink (List.cons_ne_nil _ _)
    cases items with
    | nil =>
      refine ⟨h, by simpa using hlink, ?_⟩
      change Lies l (p + bigSize first) item
      simpa using hlies
    | cons next items =>
      obtain ⟨hfirst, hnext, hrest⟩ := h
      rw [List.dropLast_cons_cons, total_cons, total_cons, ← Nat.add_assoc, ← Nat.add_assoc] at hlink
      exact ⟨hfirst, hnext, ih hrest hlies fun _ => hlink⟩

end

/-- The loops read the items. -/
theorem walk_of_chain {m : PacketMetadata} (h : Chain m.data.data p items) (hitems : ∀ item ∈ items, Bounded item)
    (hne : items ≠ []) (htail : m.tail = p + total items.dropLast) (hlt : p + total items < 2 ^ 16)
    (hlen : m.data.data.length < 2 ^ 16) {steps : ℕ} (hsteps : items.length ≤ steps) :
    ∃ read, m.walk steps p = some read ∧ read.map Item.of = items.map Item.of := by
  induction items generalizing p steps with
  | nil => exact absurd rfl hne
  | cons item items ih =>
    have hfour := fourteen_le_bigSize item
    obtain ⟨steps, rfl⟩ := Nat.exists_eq_succ_of_ne_zero (by rw [List.length_cons] at hsteps; omega : steps ≠ 0)
    rw [total_cons] at hlt
    have hp : p ≠ 0xffff := by omega
    have hitem := hitems item List.mem_cons_self
    cases items with
    | nil =>
      obtain ⟨read, hread, hof, -⟩ := readItems_of_lies h hitem hlen
      have hlast : p = m.tail := by simpa using htail.symm
      refine ⟨[read], ?_, by rw [List.map_singleton, hof, List.map_singleton]⟩
      rw [walk, if_neg hp, hread]
      exact if_pos hlast
    | cons next items =>
      obtain ⟨hlies, hlink, hrest⟩ := h
      obtain ⟨read, hread, hof, hnext⟩ := readItems_of_lies hlies hitem hlen
      have hlast := total_dropLast_lt (List.cons_ne_nil next items)
      rw [List.dropLast_cons_cons, total_cons] at htail
      rw [hlink, ofLittleEndian_append16 (by omega)] at hnext
      obtain ⟨rest, hrest', hofs⟩ := ih hrest (fun item hi => hitems item (List.mem_cons_of_mem _ hi))
        (List.cons_ne_nil _ _) (by omega) (by omega) (Nat.le_of_succ_le_succ hsteps)
      refine ⟨read :: rest, ?_, by rw [List.map_cons, hof, hofs, ← List.map_cons]⟩
      rw [walk, if_neg hp, hread]
      change (if p = m.tail then some [read] else if p ≠ read.1.next then _ else none) = _
      rw [if_neg (by omega), if_pos (by omega), hnext, hrest']
      rfl

/-! ### Adding an item -/

variable {m : PacketMetadata}

/-- A list that was built by adding these items at the tail, on a block that it shares with no other. -/
structure Holds (m : PacketMetadata) (items : List (SmallItem × ExtraItem)) : Prop where
  /-- No other list is on the block. -/
  count_eq : m.data.count = 1
  length_lt : m.data.data.length < 2 ^ 16
  /-- The items take up the used octets. -/
  used_eq : m.used = total items
  /-- The used octets lie in the block. -/
  used_le : m.used ≤ m.data.data.length
  /-- The items lie in the block. -/
  chain : Chain m.data.data 0 items
  /-- The numbers of the items fit. -/
  bounded : ∀ item ∈ items, Bounded item
  /-- The head is the first item. -/
  head_eq : m.head = if items = [] then 0xffff else 0
  tail_eq : m.tail = if items = [] then 0xffff else total items.dropLast

/-- The loops read the items that were added. -/
theorem items_of_holds (h : m.Holds items) :
    ∃ read, m.items = some read ∧ read.map Item.of = items.map Item.of := by
  have hhead := h.head_eq
  have htail := h.tail_eq
  rcases eq_or_ne items [] with rfl | hne
  · refine ⟨[], ?_, rfl⟩
    rw [PacketMetadata.items, hhead, if_pos rfl, walk_end m (by decide)]
  · rw [if_neg hne] at hhead htail
    have hle := h.chain.le_length hne
    have hlt := h.length_lt
    have hlen := length_le_total items
    rw [PacketMetadata.items, hhead]
    exact walk_of_chain h.chain h.bounded hne (by omega) (by omega) hlt (by omega)

theorem Data.write_eq {d : Data} (h : p + x.length ≤ d.data.length) :
    d.write p x = some { d with data := Lib.overwrite d.data p x } := if_pos h

/-- A new metadata. -/
theorem holds_new (alloc : Allocator) (uid : UInt64) : (new alloc uid).Holds [] := by
  have hle := alloc.le_create ⟨⟨1, 0, []⟩, 0xffff, 0xffff, 0, uid⟩ 10
  refine ⟨alloc.count_create _ _, ?_, rfl, Nat.zero_le _, trivial, fun item hi => ?_, rfl, rfl⟩
  · refine Nat.lt_of_le_of_lt (Nat.le_of_eq (length_overwrite ?_)) (alloc.create_lt _ _ (by omega))
    rw [List.length_replicate]
    omega
  · exact absurd hi List.not_mem_nil

theorem Chain.copy (h : Chain l 0 items) (g : List UInt8) {n : ℕ} (hn : total items ≤ n) (hle : n ≤ l.length)
    (hroom : n ≤ g.length) :
    Chain (Lib.overwrite g 0 (l.take n)) 0 items ∧ (Lib.overwrite g 0 (l.take n)).length = g.length := by
  have htake : (l.take n).length = n := List.length_take_of_le hle
  have hlen : (Lib.overwrite g 0 (l.take n)).length = g.length := length_overwrite (by omega)
  refine ⟨h.congr (by omega) fun q k _ hqk => ?_, hlen⟩
  have hfront : Lib.overwrite g 0 (l.take n) = l.take n ++ g.drop (0 + (l.take n).length) := rfl
  rw [hfront, slice_append_of_le (by omega), slice, slice, List.drop_take, List.take_take,
    Nat.min_eq_left (by omega)]

/-- `ReserveCopy`: the items are on a new block with room for `n` octets. -/
theorem Holds.reserveCopy (h : m.Holds items) (alloc : Allocator) {n : ℕ} (hn : m.used + n < 2 ^ 16) :
    ∃ m', m.reserveCopy alloc n = some m' ∧ m'.Holds items ∧ m'.used + n ≤ m'.data.data.length ∧
      m'.packetUid = m.packetUid := by
  obtain ⟨-, -, hused, hle, hchain, hbounded, hhead, htail⟩ := h
  have hcount := alloc.count_create m (m.used + n)
  have hroom := alloc.le_create m (m.used + n)
  have hlt := alloc.create_lt m (m.used + n) hn
  obtain ⟨d, hd⟩ : ∃ d, alloc.create m (m.used + n) = d := ⟨_, rfl⟩
  rw [hd] at hcount hroom hlt
  have htake : (m.data.data.take m.used).length = m.used := List.length_take_of_le hle
  obtain ⟨hchain₁, hlen₁⟩ := hchain.copy d.data (Nat.le_of_eq hused.symm) hle (by omega)
  have hcopy := Data.write_eq (d := d) (p := 0) (x := m.data.data.take m.used) (by omega)
  obtain ⟨l₁, hl₁⟩ : ∃ l₁, Lib.overwrite d.data 0 (m.data.data.take m.used) = l₁ := ⟨_, rfl⟩
  rw [hl₁] at hchain₁ hlen₁ hcopy
  rcases eq_or_ne items [] with rfl | hne
  · have hnone : ¬ m.head ≠ 0xffff := not_not.mpr hhead
    refine ⟨{ m with data := { d with data := l₁, dirtyEnd := m.used } }, ?_, ?_, ?_, rfl⟩
    · simp only [PacketMetadata.reserveCopy, hd, hcopy, hle, hnone, if_true, if_false, Option.bind_eq_bind,
        Option.bind_some]
    · exact ⟨hcount, hlen₁ ▸ hlt, hused, hlen₁ ▸ Nat.le_trans (Nat.le_add_right _ n) hroom, trivial, hbounded, hhead,
        htail⟩
    · exact hlen₁ ▸ hroom
  · rw [if_neg hne] at hhead htail
    have hsome : m.head ≠ 0xffff := by omega
    have hlast := total_dropLast_lt hne
    have h16 := length_append16 0xffff
    have hchain₂ := hchain₁.overwrite_next hne h16
    rw [Nat.zero_add, ← htail] at hchain₂
    have hlen₂ : (Lib.overwrite l₁ m.tail (append16 0xffff)).length = l₁.length := length_overwrite (by omega)
    have hwrite₂ := Data.write_eq (d := { d with data := l₁, dirtyEnd := m.used }) (p := m.tail)
      (x := append16 0xffff) (show m.tail + _ ≤ l₁.length by omega)
    obtain ⟨l₂, hl₂⟩ : ∃ l₂, Lib.overwrite l₁ m.tail (append16 0xffff) = l₂ := ⟨_, rfl⟩
    rw [hl₂] at hchain₂ hlen₂ hwrite₂
    have hchain₃ : Chain (Lib.overwrite l₂ (m.head + 2) (append16 0xffff)) 0 items := by
      rw [hhead]
      exact hchain₂.overwrite_prev hne h16
    have hlen₃ : (Lib.overwrite l₂ (m.head + 2) (append16 0xffff)).length = l₂.length := length_overwrite (by omega)
    have hwrite₃ := Data.write_eq (d := { d with data := l₂, dirtyEnd := m.used }) (p := m.head + 2)
      (x := append16 0xffff) (show m.head + 2 + _ ≤ l₂.length by omega)
    obtain ⟨l₃, hl₃⟩ : ∃ l₃, Lib.overwrite l₂ (m.head + 2) (append16 0xffff) = l₃ := ⟨_, rfl⟩
    rw [hl₃] at hchain₃ hlen₃ hwrite₃
    refine ⟨{ m with data := { d with data := l₃, dirtyEnd := m.used } }, ?_, ?_, ?_, rfl⟩
    · simp only [PacketMetadata.reserveCopy, hd, hcopy, hle, hsome, hwrite₂, hwrite₃, ne_eq, not_false_eq_true,
        if_true, Option.bind_eq_bind, Option.bind_some]
    · refine ⟨hcount, ?_, hused, ?_, hchain₃, hbounded, ?_, ?_⟩
      · change l₃.length < 2 ^ 16
        omega
      · change m.used ≤ l₃.length
        omega
      · rw [if_neg hne]
        exact hhead
      · rw [if_neg hne]
        exact htail
    · change m.used + n ≤ l₃.length
      omega

/-- There is room for `n` octets. -/
theorem Holds.makeRoom (h : m.Holds items) (alloc : Allocator) {n : ℕ} (hn : m.used + n < 2 ^ 16) :
    ∃ m', m.makeRoom alloc n = some m' ∧ m'.Holds items ∧ m'.used + n ≤ m'.data.data.length ∧
      m'.packetUid = m.packetUid := by
  rw [PacketMetadata.makeRoom]
  split_ifs with hcond
  · exact h.reserveCopy alloc hn
  · refine ⟨m, rfl, h, ?_, rfl⟩
    have hsize : m.data.size = m.data.data.length := Nat.mod_eq_of_lt h.length_lt
    omega

theorem lies_overwrite (next prev : ℕ) (hlen : p + bigSize item ≤ l.length) :
    Lies (Lib.overwrite l p (bigItem next prev item.1 item.2)) p item := by
  have hsize := length_bigItem next prev item
  have hself := slice_overwrite (l := l) (p := p) (x := bigItem next prev item.1 item.2) (by omega)
  rw [hsize] at hself
  refine ⟨by rw [length_overwrite (by omega)]; exact hlen, ?_⟩
  rw [← drop_slice, hself, bigItem, ← List.append_assoc, List.drop_left']
  rw [List.length_append, length_append16, length_append16]

/-- The new item is linked to the tail. -/
theorem Holds.updateTail (h : m.Holds items) (hitem : Bounded item) (hlies : Lies m.data.data m.used item)
    (hfits : total items + bigSize item < 2 ^ 16) :
    ∃ m', m.updateTail (bigSize item) = some m' ∧ m'.Holds (items ++ [item]) ∧ m'.packetUid = m.packetUid := by
  obtain ⟨hcount, hlt, hused, hle, hchain, hbounded, hhead, htail⟩ := h
  have hmod : (m.used + bigSize item) % 2 ^ 16 = m.used + bigSize item := Nat.mod_eq_of_lt (by omega)
  have hbounded' : ∀ i ∈ items ++ [item], Bounded i := by
    intro i hi
    rcases List.mem_append.mp hi with hi | hi
    · exact hbounded i hi
    · rw [List.mem_singleton.mp hi]
      exact hitem
  have hne' : items ++ [item] ≠ [] := List.append_ne_nil_of_right_ne_nil _ (List.cons_ne_nil _ _)
  have htotal : total (items ++ [item]) = m.used + bigSize item := by
    rw [total_append, total_cons, total_nil, hused, Nat.add_zero]
  have hroom := hlies.1
  rw [hused] at hlies
  have hdrop : total (items ++ [item]).dropLast = m.used := by
    rw [List.dropLast_concat, hused]
  rcases eq_or_ne items [] with rfl | hne
  · rw [if_pos rfl] at hhead htail
    refine ⟨{ m with
      head := m.used, tail := m.used, used := m.used + bigSize item
      data := { m.data with dirtyEnd := m.used + bigSize item } }, ?_, ?_, rfl⟩
    · rw [PacketMetadata.updateTail, if_pos hhead, if_pos htail, Option.bind_eq_bind, Option.bind_some]
      simp only [hmod]
    · refine ⟨hcount, hlt, htotal.symm, hroom, hlies, hbounded', ?_, ?_⟩
      · rw [if_neg hne']
        exact hused
      · rw [if_neg hne']
        exact hdrop.symm
  · rw [if_neg hne] at hhead htail
    have hlast := total_dropLast_lt hne
    have h16 := length_append16 m.used
    have hsome : m.head ≠ 0xffff := by omega
    have htail' : m.tail ≠ 0xffff := by omega
    have hwrite := Data.write_eq (d := m.data) (p := m.tail) (x := append16 m.used) (by omega)
    obtain ⟨l', hl'⟩ : ∃ l', Lib.overwrite m.data.data m.tail (append16 m.used) = l' := ⟨_, rfl⟩
    have hlen' : l'.length = m.data.data.length := by
      rw [← hl']
      exact length_overwrite (by omega)
    have hchain' : Chain l' 0 (items ++ [item]) := by
      rw [← hl', htail, ← Nat.zero_add (total items.dropLast)]
      refine (hchain.overwrite_next hne h16).append ?_ fun _ => ?_
      · simp only [Nat.zero_add]
        exact hlies.overwrite (by omega) (.inl (by omega))
      · have hself := slice_overwrite (l := m.data.data) (p := 0 + total items.dropLast) (x := append16 m.used)
          (by omega)
        rw [h16] at hself
        rw [hself, Nat.zero_add, hused]
    rw [hl'] at hwrite
    refine ⟨{ m with
      tail := m.used, used := m.used + bigSize item
      data := { m.data with data := l', dirtyEnd := m.used + bigSize item } }, ?_, ?_, rfl⟩
    · rw [PacketMetadata.updateTail, if_neg hsome, if_pos htail', hwrite]
      simp only [Option.bind_eq_bind, Option.bind_some, hmod]
    · refine ⟨hcount, hlen' ▸ hlt, htotal.symm, hlen' ▸ hroom, hchain', hbounded', ?_, ?_⟩
      · rw [if_neg hne']
        exact hhead
      · rw [if_neg hne']
        exact hdrop.symm

/-- An item is added at the tail. -/
theorem Holds.add (h : m.Holds items) (alloc : Allocator) (hitem : Bounded item)
    (hfits : total items + bigSize item < 2 ^ 16) :
    ∃ m₁ m₂, m.addBig alloc 0xffff m.tail item.1 item.2 = some (bigSize item, m₁) ∧
      m₁.updateTail (bigSize item) = some m₂ ∧ m₂.Holds (items ++ [item]) ∧ m₂.packetUid = m.packetUid := by
  have hused := h.used_eq
  have htail := h.tail_eq
  have hfour := fourteen_le_bigSize item
  have hsize := length_bigItem 0xffff m.tail item
  have hapart : m.used ≠ m.tail ∧ m.used ≠ 0xffff := by
    have hlast := @total_dropLast_lt items
    split_ifs at htail with hnil
    · omega
    · have := hlast hnil
      omega
  obtain ⟨m', hm', hholds, hroom, huid⟩ := h.makeRoom alloc (n := bigSize item) (by omega)
  have hlen : m'.used + (bigItem 0xffff m.tail item.1 item.2).length ≤ m'.data.data.length := by omega
  have hwrite := Data.write_eq hlen
  obtain ⟨l₁, hl₁⟩ : ∃ l₁, Lib.overwrite m'.data.data m'.used (bigItem 0xffff m.tail item.1 item.2) = l₁ := ⟨_, rfl⟩
  have hlies : Lies l₁ m'.used item := by
    rw [← hl₁]
    exact lies_overwrite _ _ hroom
  have hlen₁ : l₁.length = m'.data.data.length := by
    rw [← hl₁]
    exact length_overwrite hlen
  have hchain : Chain l₁ 0 items := by
    rw [← hl₁]
    exact hholds.chain.overwrite hlen (.inr (by rw [hholds.used_eq]; omega))
  rw [hl₁] at hwrite
  have hholds₁ : ({ m' with data := { m'.data with data := l₁ } } : PacketMetadata).Holds items :=
    { hholds with
      length_lt := hlen₁ ▸ hholds.length_lt
      used_le := hlen₁ ▸ hholds.used_le
      chain := hchain }
  obtain ⟨m₂, hm₂, hholds₂, huid₂⟩ := hholds₁.updateTail hitem hlies hfits
  refine ⟨_, m₂, ?_, hm₂, hholds₂, huid₂.trans huid⟩
  rw [addBig, if_pos hapart, hsize, hm']
  simp only [Option.bind_eq_bind, Option.bind_some, hwrite]

end PacketMetadata

end Ns3
