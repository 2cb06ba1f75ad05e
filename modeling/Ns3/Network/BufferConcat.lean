import Ns3.Network.BufferIsolation

/-!
# Buffers behind buffers

`Buffer::AddAtEnd (const Buffer &)` with `Buffer::Iterator::Write (Iterator, Iterator)` (`network/model/buffer.cc`): one
buffer is put behind another. Where the first ends with a zero area and the second begins with one, the areas become one
and only what follows is written; else full copies of both are put together. What an assertion asks for is checked in
builds with assertions, which `asserts` says.

* `writeIterator_whole` — `Write` copies a whole buffer that has no zero area.
* `appendBuffer_iff` — when the bytes of the second are put behind those of the first: the iterator that writes what
  follows the zero areas does not take the area of its buffer off its position.
-/

namespace Ns3

open Lib

namespace Buffer

/-- `NS_ASSERT`. -/
def nsAssert (asserts : Bool) (condition : Prop) [Decidable condition] : Option Unit :=
  if asserts = true ∧ ¬ condition then none else some ()

/-- `Buffer::Iterator`, with the address of the block. -/
structure HeapIterator where
  zeroStart : ℕ
  zeroEnd : ℕ
  dataStart : ℕ
  dataEnd : ℕ
  current : ℕ
  data : ℕ

/-- `Construct`, and a position. -/
def iterator (b : Buffer) (current : ℕ) : HeapIterator :=
  ⟨b.zeroAreaStart, b.zeroAreaEnd, b.start, b.stop, current, b.data⟩

/-- `Begin`. -/
def beginIterator (b : Buffer) : HeapIterator := b.iterator b.start

/-- `End`. -/
def endIterator (b : Buffer) : HeapIterator := b.iterator b.stop

namespace HeapIterator

/-- `Prev (delta)`. -/
def prev (asserts : Bool) (i : HeapIterator) (delta : ℕ) : Option HeapIterator := do
  nsAssert asserts (delta ≤ i.current)
  some { i with current := sub32 i.current delta }

/-- `m_current += toCopy`. -/
def advance (i : HeapIterator) (toCopy : ℕ) : HeapIterator := { i with current := add32 i.current toCopy }

/-- The position is in the data, and not in the zero area. -/
def Check (this : HeapIterator) (i : ℕ) : Prop :=
  this.dataStart ≤ i ∧ ¬ (this.zeroStart ≤ i ∧ i < this.zeroEnd) ∧ i ≤ this.dataEnd
deriving Decidable

/-- All positions are. -/
def CheckNoZero (this : HeapIterator) (start stop : ℕ) : Prop := ∀ i < stop, start ≤ i → this.Check i

instance (this : HeapIterator) (start stop : ℕ) : Decidable (this.CheckNoZero start stop) :=
  inferInstanceAs (Decidable (∀ i < stop, start ≤ i → this.Check i))

end HeapIterator

/-- `memcpy`, from the offset `q` of the block at `a'` to the offset `p` of the block at `a`. -/
def memcpy (heap : Store ℕ Data) (a p a' q n : ℕ) : Option (Store ℕ Data) :=
  if n = 0 then some heap else do
    let source ← heap.lookup a'
    let bytes ← source.read q n
    let target ← heap.lookup a
    let target ← target.write p bytes
    some (heap.insert a target)

/-- `memset` to zero. -/
def memset (heap : Store ℕ Data) (a p n : ℕ) : Option (Store ℕ Data) :=
  if n = 0 then some heap else do
    let target ← heap.lookup a
    let target ← target.write p (List.replicate n 0)
    some (heap.insert a target)

/-- `Iterator::Write (start, stop)`: the blocks. -/
def writeIterator (asserts : Bool) (heap : Store ℕ Data) (this start stop : HeapIterator) :
    Option (Store ℕ Data) := do
  nsAssert asserts (start.data = stop.data)
  nsAssert asserts (start.current ≤ stop.current)
  nsAssert asserts (start.zeroStart = stop.zeroStart)
  nsAssert asserts (start.zeroEnd = stop.zeroEnd)
  nsAssert asserts (this.data ≠ start.data)
  let size := sub32 stop.current start.current
  nsAssert asserts (this.CheckNoZero this.current (add32 this.current size))
  let (heap, this, start, size) ←
    if start.current ≤ start.zeroStart then do
      let toCopy := min size (sub32 start.zeroStart start.current)
      let heap ← memcpy heap this.data this.current start.data start.current toCopy
      some (heap, this.advance toCopy, start.advance toCopy, sub32 size toCopy)
    else some (heap, this, start, size)
  let (heap, this, start, size) ←
    if start.current ≤ start.zeroEnd then do
      let toCopy := min size (sub32 start.zeroEnd start.current)
      let heap ← memset heap this.data this.current toCopy
      some (heap, this.advance toCopy, start.advance toCopy, sub32 size toCopy)
    else some (heap, this, start, size)
  let toCopy := min size (sub32 start.dataEnd start.current)
  memcpy heap this.data this.current start.data (sub32 start.current (sub32 start.zeroEnd start.zeroStart)) toCopy

/-! ### Copies between blocks -/

theorem nsAssert_of {asserts : Bool} {condition : Prop} [Decidable condition] (h : asserts = true → condition) :
    nsAssert asserts condition = some () := if_neg fun hfails => hfails.2 (h hfails.1)

theorem memcpy_spec {heap : Store ℕ Data} {a a' p q n : ℕ} {source target : Data}
    (htarget : heap.lookup a = some target) (hsource : heap.lookup a' = some source) (hq : q + n ≤ source.size)
    (hp : p + n ≤ target.size) :
    ∃ heap', memcpy heap a p a' q n = some heap' ∧ ∀ k, heap'.lookup k =
      if k = a then some { target with data := overwrite target.data p (slice source.data q n) }
      else heap.lookup k := by
  rw [memcpy]
  by_cases hn : n = 0
  · refine ⟨heap, if_pos hn, fun k => ?_⟩
    split_ifs with hk
    · rw [hk, htarget, hn, slice_zero, overwrite_nil]
    · rfl
  · have hlen : (slice source.data q n).length = n := length_slice hq
    have hread : source.read q n = some (slice source.data q n) := if_pos hq
    have hwrite : target.write p (slice source.data q n) =
        some { target with data := overwrite target.data p (slice source.data q n) } := if_pos (by rwa [hlen])
    refine ⟨heap.insert a { target with data := overwrite target.data p (slice source.data q n) }, ?_, fun k => ?_⟩
    · rw [if_neg hn]
      simp only [hsource, hread, htarget, hwrite, Option.bind_eq_bind, Option.bind_some]
    · split_ifs with hk
      · rw [hk]
        exact AList.lookup_insert _
      · exact AList.lookup_insert_ne hk

theorem memcpy_eq_none {heap : Store ℕ Data} {a a' p q n : ℕ} {target : Data} (htarget : heap.lookup a = some target)
    (hn : n ≠ 0) (hp : target.size < p + n) : memcpy heap a p a' q n = none := by
  rw [memcpy, if_neg hn]
  refine Option.eq_none_iff_forall_ne_some.mpr fun heap' hcopy => ?_
  simp only [htarget, Option.bind_eq_bind, Option.bind_eq_some_iff, Option.some.injEq] at hcopy
  obtain ⟨source, -, bytes, hread, target', rfl, written, hwrite, -⟩ := hcopy
  rw [Data.read] at hread
  rw [Data.write] at hwrite
  split_ifs at hread hwrite with hsource htarget'
  cases hread
  rw [length_slice hsource] at htarget'
  omega

theorem advance_iterator {b : Buffer} {c n : ℕ} (h : c + n < 2 ^ 32) :
    (b.iterator c).advance n = b.iterator (c + n) := by
  rw [HeapIterator.advance, iterator, iterator, add32_of_lt h]

theorem prev_iterator (asserts : Bool) {b : Buffer} {c n : ℕ} (h : n ≤ c) :
    (b.iterator c).prev asserts n = some (b.iterator (c - n)) := by
  have hassert : nsAssert asserts (n ≤ (b.iterator c).current) = some () := nsAssert_of fun _ => h
  simp only [HeapIterator.prev, hassert, Option.bind_eq_bind, Option.bind_some]
  rw [iterator, sub32_of_le h]
  rfl

/-- A buffer without a zero area is written, as a whole, to where there is room for it. -/
theorem writeIterator_whole {asserts : Bool} {heap : Store ℕ Data} {b o : Buffer} {d s : Data} {p : ℕ}
    (hb : heap.lookup b.data = some d) (ho : heap.lookup o.data = some s) (hin : o.InBounds s)
    (hozero : o.zeroAreaEnd = o.zeroAreaStart) (hbzero : b.zeroAreaEnd = b.zeroAreaStart) (hstart : b.start ≤ p)
    (hend : p + (o.stop - o.start) = b.stop) (hroom : b.stop ≤ d.size) (hlt : b.stop < 2 ^ 32)
    (hapart : b.data = o.data → o.stop ≤ p) (hassert : asserts = true → b.data ≠ o.data) :
    ∃ heap', writeIterator asserts heap (b.iterator p) o.beginIterator o.endIterator = some heap' ∧
      ∀ a, heap'.lookup a =
        if a = b.data then some { d with data := overwrite d.data p (o.content s.data) } else heap.lookup a := by
  obtain ⟨x, y, z, hsized⟩ := hin.exists_sized
  have hl := hin.le_length hsized
  have hstop := hin.stop_lt
  obtain ⟨hx, hy, hz⟩ := id hsized
  obtain rfl : y = 0 := by omega
  have hlen : (slice s.data o.start x).length = x := length_slice (by omega)
  have hcontent : o.content s.data = slice s.data o.start x ++ slice s.data (o.start + x) z := by
    rw [hsized.content_eq, List.replicate_zero, List.nil_append]
  -- what lies before the place of the zero area
  obtain ⟨heap₁, hfront, hheap₁⟩ := memcpy_spec (p := p) (q := o.start) (n := x) hb ho (by rw [Data.size]; omega)
    (by omega)
  have htarget : heap₁.lookup b.data =
      some { d with data := overwrite d.data p (slice s.data o.start x) } := (hheap₁ _).trans (if_pos rfl)
  have hsize₁ : (overwrite d.data p (slice s.data o.start x)).length = d.size :=
    length_overwrite (by rw [hlen, ← Data.size]; omega)
  obtain ⟨s₁, hs₁, hbehind⟩ : ∃ s₁, heap₁.lookup o.data = some s₁ ∧ o.start + x + z ≤ s₁.size ∧
      slice s₁.data (o.start + x) z = slice s.data (o.start + x) z := by
    by_cases hsame : o.data = b.data
    · have hle := hapart hsame.symm
      obtain rfl : s = d := by
        rw [hsame, hb] at ho
        exact (Option.some.inj ho).symm
      exact ⟨_, hsame ▸ htarget, by rw [Data.size, hsize₁]; omega,
        slice_overwrite_of_le (by omega) (by rw [← Data.size]; omega)⟩
    · exact ⟨s, by rw [hheap₁, if_neg hsame, ho], hl, rfl⟩
  -- and what lies behind it
  obtain ⟨heap₂, hback, hheap₂⟩ := memcpy_spec (p := p + x) (q := o.start + x) (n := z) htarget hs₁ hbehind.1
    (by rw [Data.size, hsize₁]; omega)
  refine ⟨heap₂, ?_, fun a => ?_⟩
  · have h₁ : nsAssert asserts (o.beginIterator.data = o.endIterator.data) = some () := nsAssert_of fun _ => rfl
    have h₂ : nsAssert asserts (o.beginIterator.current ≤ o.endIterator.current) = some () :=
      nsAssert_of fun _ => show o.start ≤ o.stop by omega
    have h₃ : nsAssert asserts (o.beginIterator.zeroStart = o.endIterator.zeroStart) = some () :=
      nsAssert_of fun _ => rfl
    have h₄ : nsAssert asserts (o.beginIterator.zeroEnd = o.endIterator.zeroEnd) = some () :=
      nsAssert_of fun _ => rfl
    have h₅ : nsAssert asserts ((b.iterator p).data ≠ o.beginIterator.data) = some () := nsAssert_of hassert
    have hsize : sub32 o.endIterator.current o.beginIterator.current = x + z :=
      (sub32_of_le (show o.start ≤ o.stop by omega)).trans (show o.stop - o.start = x + z by omega)
    have hadd : add32 (b.iterator p).current (x + z) = b.stop :=
      (add32_of_lt (show p + (x + z) < 2 ^ 32 by omega)).trans (show p + (x + z) = b.stop by omega)
    have h₆ : nsAssert asserts ((b.iterator p).CheckNoZero (b.iterator p).current b.stop) = some () := by
      refine nsAssert_of fun _ i hi hp => ⟨hstart.trans hp, fun hzero => ?_, hi.le⟩
      exact absurd hbzero (Nat.ne_of_gt (hzero.1.trans_lt hzero.2))
    have hbefore : o.beginIterator.current ≤ o.beginIterator.zeroStart := show o.start ≤ o.zeroAreaStart by omega
    have hmin₁ : min (x + z) (sub32 o.beginIterator.zeroStart o.beginIterator.current) = x := by
      have hsub : sub32 o.zeroAreaStart o.start = x := (sub32_of_le (by omega)).trans (by omega)
      rw [beginIterator, iterator, hsub]
      omega
    have hcopy₁ : memcpy heap (b.iterator p).data (b.iterator p).current o.beginIterator.data
        o.beginIterator.current x = some heap₁ := hfront
    have hdst : (b.iterator p).advance x = b.iterator (p + x) := advance_iterator (by omega)
    have hsrc : o.beginIterator.advance x = o.iterator (o.start + x) := advance_iterator (by omega)
    have hrest : sub32 (x + z) x = z := (sub32_of_le (by omega)).trans (by omega)
    have hinside : (o.iterator (o.start + x)).current ≤ (o.iterator (o.start + x)).zeroEnd :=
      show o.start + x ≤ o.zeroAreaEnd by omega
    have hmin₂ : min z (sub32 (o.iterator (o.start + x)).zeroEnd (o.iterator (o.start + x)).current) = 0 := by
      have hsub : sub32 o.zeroAreaEnd (o.start + x) = 0 := (sub32_of_le (by omega)).trans (by omega)
      rw [iterator, hsub, Nat.min_zero]
    have hset : memset heap₁ (b.iterator (p + x)).data (b.iterator (p + x)).current 0 = some heap₁ := if_pos rfl
    have hdst₀ : (b.iterator (p + x)).advance 0 = b.iterator (p + x) := advance_iterator (by omega)
    have hsrc₀ : (o.iterator (o.start + x)).advance 0 = o.iterator (o.start + x) := advance_iterator (by omega)
    have hrest₀ : sub32 z 0 = z := sub32_of_le (Nat.zero_le z)
    have hmin₃ : min z (sub32 (o.iterator (o.start + x)).dataEnd (o.iterator (o.start + x)).current) = z := by
      have hsub : sub32 o.stop (o.start + x) = z := (sub32_of_le (by omega)).trans (by omega)
      rw [iterator, hsub, Nat.min_self]
    have hplace : sub32 (o.iterator (o.start + x)).current
        (sub32 (o.iterator (o.start + x)).zeroEnd (o.iterator (o.start + x)).zeroStart) = o.start + x := by
      have hsub : sub32 o.zeroAreaEnd o.zeroAreaStart = 0 := (sub32_of_le (by omega)).trans (by omega)
      rw [iterator, hsub]
      exact sub32_of_le (Nat.zero_le _)
    have hcopy₂ : memcpy heap₁ (b.iterator (p + x)).data (b.iterator (p + x)).current (o.iterator (o.start + x)).data
        (o.start + x) z = some heap₂ := hback
    simp only [writeIterator, h₁, h₂, h₃, h₄, h₅, hsize, hadd, h₆, if_pos hbefore, hmin₁, hcopy₁, hdst, hsrc, hrest,
      if_pos hinside, hmin₂, hset, hdst₀, hsrc₀, hrest₀, hmin₃, hplace, hcopy₂, Option.bind_eq_bind, Option.bind_some]
  · rw [hheap₂, hheap₁]
    dsimp only
    rw [hbehind.2, hcontent, ← overwrite_append (by rw [← Data.size]; omega), hlen]
    split_ifs <;> rfl

theorem data_ne_of_writeIterator {heap heap' : Store ℕ Data} {i start stop : HeapIterator}
    (h : writeIterator true heap i start stop = some heap') : i.data ≠ start.data := by
  simp only [writeIterator, Option.bind_eq_bind, Option.bind_eq_some_iff] at h
  obtain ⟨_, -, _, -, _, -, _, -, _, hassert, -⟩ := h
  intro heq
  rw [nsAssert, if_pos ⟨rfl, not_not.mpr heq⟩] at hassert
  cases hassert

/-- What lies behind a zero area is copied from its place to the position of the iterator, which is taken for a place in
the block. -/
theorem writeIterator_behind (asserts : Bool) (heap : Store ℕ Data) {b o : Buffer} {p e : ℕ} (ho : o.Ordered)
    (hzero : o.zeroAreaStart < o.zeroAreaEnd) (hsize : o.zeroAreaEnd + e = o.stop) (hstart : b.start ≤ p)
    (hbehind : b.zeroAreaEnd ≤ p) (hend : p + e = b.stop) (hlt : b.stop < 2 ^ 32) (hdata : b.data ≠ o.data) :
    writeIterator asserts heap (b.iterator p) (o.iterator o.zeroAreaEnd) o.endIterator =
      memcpy heap b.data p o.data o.zeroAreaStart e := by
  obtain ⟨-, -, -, hstop⟩ := ho
  have h₁ : nsAssert asserts ((o.iterator o.zeroAreaEnd).data = o.endIterator.data) = some () :=
    nsAssert_of fun _ => rfl
  have h₂ : nsAssert asserts ((o.iterator o.zeroAreaEnd).current ≤ o.endIterator.current) = some () :=
    nsAssert_of fun _ => show o.zeroAreaEnd ≤ o.stop by omega
  have h₃ : nsAssert asserts ((o.iterator o.zeroAreaEnd).zeroStart = o.endIterator.zeroStart) = some () :=
    nsAssert_of fun _ => rfl
  have h₄ : nsAssert asserts ((o.iterator o.zeroAreaEnd).zeroEnd = o.endIterator.zeroEnd) = some () :=
    nsAssert_of fun _ => rfl
  have h₅ : nsAssert asserts ((b.iterator p).data ≠ (o.iterator o.zeroAreaEnd).data) = some () :=
    nsAssert_of fun _ => hdata
  have he : sub32 o.endIterator.current (o.iterator o.zeroAreaEnd).current = e :=
    (sub32_of_le (show o.zeroAreaEnd ≤ o.stop by omega)).trans (show o.stop - o.zeroAreaEnd = e by omega)
  have hadd : add32 (b.iterator p).current e = b.stop :=
    (add32_of_lt (show p + e < 2 ^ 32 by omega)).trans hend
  have h₆ : nsAssert asserts ((b.iterator p).CheckNoZero (b.iterator p).current b.stop) = some () := by
    refine nsAssert_of fun _ i hi hp => ⟨hstart.trans hp, fun hinside => ?_, hi.le⟩
    exact absurd hinside.2 (Nat.not_lt.mpr (hbehind.trans hp))
  have hnot : ¬ (o.iterator o.zeroAreaEnd).current ≤ (o.iterator o.zeroAreaEnd).zeroStart :=
    Nat.not_le.mpr hzero
  have hinside : (o.iterator o.zeroAreaEnd).current ≤ (o.iterator o.zeroAreaEnd).zeroEnd := Nat.le_refl _
  have hmin : min e (sub32 (o.iterator o.zeroAreaEnd).zeroEnd (o.iterator o.zeroAreaEnd).current) = 0 := by
    have hsub : sub32 o.zeroAreaEnd o.zeroAreaEnd = 0 := (sub32_of_le (Nat.le_refl _)).trans (Nat.sub_self _)
    rw [iterator, hsub, Nat.min_zero]
  have hset : memset heap (b.iterator p).data (b.iterator p).current 0 = some heap := if_pos rfl
  have hdst : (b.iterator p).advance 0 = b.iterator p := advance_iterator (by omega)
  have hsrc : (o.iterator o.zeroAreaEnd).advance 0 = o.iterator o.zeroAreaEnd := advance_iterator (by omega)
  have hrest : sub32 e 0 = e := sub32_of_le (Nat.zero_le e)
  have hmin' : min e (sub32 (o.iterator o.zeroAreaEnd).dataEnd (o.iterator o.zeroAreaEnd).current) = e := by
    have hsub : sub32 o.stop o.zeroAreaEnd = e := (sub32_of_le (by omega)).trans (by omega)
    rw [iterator, hsub, Nat.min_self]
  have hplace : sub32 (o.iterator o.zeroAreaEnd).current
      (sub32 (o.iterator o.zeroAreaEnd).zeroEnd (o.iterator o.zeroAreaEnd).zeroStart) = o.zeroAreaStart := by
    have hsub : sub32 o.zeroAreaEnd o.zeroAreaStart = o.zeroAreaEnd - o.zeroAreaStart := sub32_of_le hzero.le
    rw [iterator, hsub]
    exact (sub32_of_le (Nat.sub_le _ _)).trans (show o.zeroAreaEnd - (o.zeroAreaEnd - o.zeroAreaStart) = _ by omega)
  simp only [writeIterator, h₁, h₂, h₃, h₄, h₅, he, hadd, h₆, if_neg hnot, if_pos hinside, hmin, hset, hdst, hsrc,
    hrest, hmin', hplace, Option.bind_eq_bind, Option.bind_some]
  rfl

namespace Memory

/-- The test with which `AddAtEnd` decides to make one zero area of two. -/
def ZeroAreasMeet (b : Buffer) (d : Data) (o : Buffer) : Prop :=
  d.count = 1 ∧ b.stop = b.zeroAreaEnd ∧ b.stop = d.dirtyEnd ∧ o.start = o.zeroAreaStart ∧
    0 < sub32 o.zeroAreaEnd o.zeroAreaStart
deriving Decidable

/-- `AddAtEnd` where the zero areas become one. -/
def appendZeroArea (asserts : Bool) (alloc : Allocator) (m : Memory) (this : ℕ) (o : Buffer) : Option Memory := do
  let (b, d) ← m.view this
  let zeroSize := sub32 o.zeroAreaEnd o.zeroAreaStart
  let zeroAreaEnd := add32 b.zeroAreaEnd zeroSize
  let m := { m with
    buffers := m.buffers.insert this { b with zeroAreaEnd := zeroAreaEnd, stop := zeroAreaEnd }
    heap := m.heap.insert b.data { d with dirtyEnd := zeroAreaEnd } }
  let endData := sub32 o.stop o.zeroAreaEnd
  let (_, m) ← m.addAtEnd alloc this endData
  let b ← m.buffers.lookup this
  let dst ← b.endIterator.prev asserts endData
  let src ← o.endIterator.prev asserts endData
  let heap ← writeIterator asserts m.heap dst src o.endIterator
  some { m with heap := heap }

/-- `AddAtEnd` with full copies, which are made at `dst` and `src`. -/
def appendCopies (asserts : Bool) (alloc : Allocator) (m : Memory) (dst src this o : ℕ) : Option Memory := do
  let m ← m.createFullCopy alloc dst this
  let m ← m.createFullCopy alloc src o
  let s ← m.buffers.lookup src
  let (_, m) ← m.addAtEnd alloc dst s.getSize
  let b ← m.buffers.lookup dst
  let destStart ← b.endIterator.prev asserts s.getSize
  let heap ← writeIterator asserts m.heap destStart s.beginIterator s.endIterator
  let m ← Memory.assign { m with heap := heap } this dst
  let m ← m.destroy src
  m.destroy dst

/-- `AddAtEnd (o)`. -/
def appendBuffer (asserts : Bool) (alloc : Allocator) (m : Memory) (dst src this o : ℕ) : Option Memory := do
  let (b, d) ← m.view this
  let ob ← m.buffers.lookup o
  if ZeroAreasMeet b d ob then m.appendZeroArea asserts alloc this ob
  else m.appendCopies asserts alloc dst src this o

/-! ### Full copies -/

variable {m : Memory} {this o dst src : ℕ} {b ob : Buffer} {d od : Data} {out oout : List UInt8} {alloc : Allocator}

/-- A full copy: on the block of the buffer, if that has no zero area, else on a block of its own. -/
theorem Sound.createFullCopy (h : m.Sound) (alloc : Allocator) (hdst : m.buffers.lookup dst = none)
    (hb : m.buffers.lookup this = some b) (hd : m.heap.lookup b.data = some d) (hbytes : m.bytes this = some out)
    (hsize : out.length + sizeofData ≤ 2 ^ 32) (hcount : d.count + 1 < 2 ^ 32) :
    ∃ m' c, m.createFullCopy alloc dst this = some m' ∧ m.Becomes m' dst (some out) ∧
      m'.buffers.lookup dst = some c ∧ c.zeroAreaEnd = c.zeroAreaStart ∧
      (b.zeroAreaEnd = b.zeroAreaStart → c = { b with maxZeroAreaStart := b.zeroAreaStart } ∧
        m'.heap = m.heap.insert b.data { d with count := d.count + 1 }) ∧
      (b.zeroAreaEnd ≠ b.zeroAreaStart → m'.Own dst c) := by
  obtain ⟨d₀, -, hin, -⟩ := h.exists_block hb
  have hzero := hin.zeroSize_eq
  have hle := hin.zeroAreaStart_le
  by_cases hfree : b.zeroAreaEnd = b.zeroAreaStart
  · obtain ⟨m', hm', hlookup, hbec⟩ := h.copy hdst hb hd hcount
    rw [hbytes] at hbec
    refine ⟨m', _, ?_, hbec, hlookup, hfree, fun _ => ⟨rfl, ?_⟩, fun hnot => absurd hfree hnot⟩
    · simp only [Memory.createFullCopy, hb, hm', Option.bind_eq_bind, Option.bind_some]
      rw [if_neg (by omega)]
    · have hadd : add32 d.count 1 = d.count + 1 := add32_of_lt hcount
      simp only [Memory.copy, hb, retain, hd, hadd, Option.bind_eq_bind, Option.bind_some, Option.some.injEq] at hm'
      rw [← hm']
  · obtain ⟨m', c, hm', hbec, hown⟩ := h.createFullCopy_zeroArea alloc hdst hb hbytes (by omega) hsize
    exact ⟨m', c, hm', hbec, hown.lookup_eq, hown.zeroArea, fun hnot => absurd hnot hfree, fun _ => hown⟩

/-- The numbers of `AddAtEnd (o)` fit. -/
structure AppendFits (b : Buffer) (d : Data) (o : Buffer) (od : Data) : Prop where
  /-- There are blocks for all bytes. -/
  size_le : b.getSize + o.getSize + sizeofData ≤ 2 ^ 32
  /-- There are offsets for them. -/
  stop_lt : b.stop + o.getSize < 2 ^ 32
  /-- There may be two buffers more on the block of the first. -/
  count_lt : d.count + 2 < 2 ^ 32
  /-- There may be two more on the block of the second. -/
  count_lt' : od.count + 2 < 2 ^ 32

instance (b : Buffer) (d : Data) (o : Buffer) (od : Data) : Decidable (AppendFits b d o od) :=
  decidable_of_iff (b.getSize + o.getSize + sizeofData ≤ 2 ^ 32 ∧ b.stop + o.getSize < 2 ^ 32 ∧ d.count + 2 < 2 ^ 32 ∧
      od.count + 2 < 2 ^ 32)
    ⟨fun ⟨h₁, h₂, h₃, h₄⟩ => ⟨h₁, h₂, h₃, h₄⟩, fun ⟨h₁, h₂, h₃, h₄⟩ => ⟨h₁, h₂, h₃, h₄⟩⟩

/-- The two buffers are on one block and have no zero areas, and the first may grow in it. -/
def SharedEnd (b : Buffer) (d : Data) (o : Buffer) : Prop :=
  b.data = o.data ∧ b.zeroAreaEnd = b.zeroAreaStart ∧ o.zeroAreaEnd = o.zeroAreaStart ∧
    b.getInternalEnd + o.getSize ≤ d.size ∧ d.dirtyEnd ≤ b.stop
deriving Decidable

theorem Sound.count_eq_one (h : m.Sound) (hb : m.buffers.lookup this = some b) (hd : m.heap.lookup b.data = some d)
    (halone : ∀ k c, k ≠ this → m.buffers.lookup k = some c → c.data ≠ b.data) : d.count = 1 := by
  have hcount := (h.block _ d hd).count_eq
  have herase : Store.holders Buffer.data (m.buffers.erase this) b.data + (if b.data = b.data then 1 else 0) =
      Store.holders Buffer.data m.buffers b.data := Store.holders_erase hb b.data
  have hnone : Store.holders Buffer.data (m.buffers.erase this) b.data = 0 :=
    Store.holders_eq_zero fun k c hc => halone k c (Store.lookup_erase_some hc).1 (Store.lookup_erase_some hc).2
  rw [if_pos rfl] at herase
  omega

/-- Full copies of the buffers `this` and `o`, made at `dst` and then at `src`. -/
structure FullCopies (m m₁ m₂ : Memory) (dst src this o : ℕ) (b : Buffer) (d : Data) (ob c s : Buffer) : Prop where
  ne : dst ≠ src
  other_ne : o ≠ dst
  this_eq : m.buffers.lookup this = some b
  other_eq : m₁.buffers.lookup o = some ob
  first : m.Becomes m₁ dst (m.bytes this)
  second : m₁.Becomes m₂ src (m.bytes o)
  dst_eq : m₂.buffers.lookup dst = some c
  src_eq : m₂.buffers.lookup src = some s
  dst_zeroArea : c.zeroAreaEnd = c.zeroAreaStart
  src_zeroArea : s.zeroAreaEnd = s.zeroAreaStart
  /-- A buffer without a zero area shares its block with its copy. -/
  dst_shares : b.zeroAreaEnd = b.zeroAreaStart → c = { b with maxZeroAreaStart := b.zeroAreaStart } ∧
    m₁.heap = m.heap.insert b.data { d with count := d.count + 1 }
  /-- The copy of any other has a block of its own. -/
  dst_own : b.zeroAreaEnd ≠ b.zeroAreaStart → m₁.Own dst c
  src_shares : ob.zeroAreaEnd = ob.zeroAreaStart → s = { ob with maxZeroAreaStart := ob.zeroAreaStart } ∧
    ∃ od, m₁.heap.lookup ob.data = some od ∧ m₂.heap = m₁.heap.insert ob.data { od with count := od.count + 1 }
  src_own : ob.zeroAreaEnd ≠ ob.zeroAreaStart → m₂.Own src s

theorem Sound.exists_fullCopies (h : m.Sound) (alloc : Allocator) (hdst : m.buffers.lookup dst = none)
    (hsrc : m.buffers.lookup src = none) (hne : dst ≠ src) (hb : m.buffers.lookup this = some b)
    (hd : m.heap.lookup b.data = some d) (ho : m.buffers.lookup o = some ob) (hod : m.heap.lookup ob.data = some od)
    (hfits : AppendFits b d ob od) :
    ∃ m₁ m₂ c s, m.createFullCopy alloc dst this = some m₁ ∧ m₁.createFullCopy alloc src o = some m₂ ∧
      FullCopies m m₁ m₂ dst src this o b d ob c s := by
  obtain ⟨hsize, -, hcount, hcount'⟩ := hfits
  obtain ⟨_, -, -, hbytes⟩ := h.exists_block hb
  obtain ⟨_, -, -, hobytes⟩ := h.exists_block ho
  obtain ⟨hlen, -, -⟩ := h.length_bytes hb hbytes
  obtain ⟨holen, -, -⟩ := h.length_bytes ho hobytes
  obtain ⟨m₁, c, hm₁, hbec₁, hc, hzero₁, hshared₁, hown₁⟩ :=
    h.createFullCopy alloc hdst hb hd hbytes (by omega) (by omega)
  have hone : o ≠ dst := by
    rintro rfl
    rw [hdst] at ho
    cases ho
  have ho₁ := (hbec₁.buffers_eq o hone).trans ho
  obtain ⟨od₁, hod₁, -, -⟩ := hbec₁.sound.exists_block ho₁
  -- the first copy is one buffer more on a block, at most
  have hcount₁ : od₁.count + 1 < 2 ^ 32 := by
    have hle : Store.holders Buffer.data m₁.buffers ob.data ≤ Store.holders Buffer.data m.buffers ob.data + 1 :=
      Store.holders_le_succ hbec₁.buffers_eq hdst ob.data
    have := (h.block _ od hod).count_eq
    have := (hbec₁.sound.block _ od₁ hod₁).count_eq
    omega
  obtain ⟨m₂, s, hm₂, hbec₂, hs, hzero₂, hshared₂, hown₂⟩ :=
    hbec₁.sound.createFullCopy alloc ((hbec₁.buffers_eq src hne.symm).trans hsrc) ho₁ hod₁
      ((hbec₁.bytes_eq o hone).trans hobytes) (by omega) hcount₁
  exact ⟨m₁, m₂, c, s, hm₁, hm₂, hne, hone, hb, ho₁, hbytes ▸ hbec₁, hobytes ▸ hbec₂,
    (hbec₂.buffers_eq dst hne).trans hc, hs, hzero₁, hzero₂, hshared₁, hown₁,
    fun hoz => ⟨(hshared₂ hoz).1, od₁, hod₁, (hshared₂ hoz).2⟩, hown₂⟩

namespace FullCopies

variable {m₁ m₂ : Memory} {c s : Buffer}

section

variable (h : FullCopies m m₁ m₂ dst src this o b d ob c s)
include h

/-- The copies are on one block only if the buffers are and have no zero areas. -/
theorem data_eq_iff :
    c.data = s.data ↔ b.data = ob.data ∧ b.zeroAreaEnd = b.zeroAreaStart ∧ ob.zeroAreaEnd = ob.zeroAreaStart := by
  by_cases hbz : b.zeroAreaEnd = b.zeroAreaStart
  · have hcb : c.data = b.data := by rw [(h.dst_shares hbz).1]
    by_cases hoz : ob.zeroAreaEnd = ob.zeroAreaStart
    · have hso : s.data = ob.data := by rw [(h.src_shares hoz).1]
      rw [hcb, hso]
      exact ⟨fun heq => ⟨heq, hbz, hoz⟩, fun hall => hall.1⟩
    · exact ⟨fun heq => absurd heq ((h.src_own hoz).alone dst c h.ne h.dst_eq), fun hall => absurd hall.2.2 hoz⟩
  · refine ⟨fun heq => absurd heq ?_, fun hall => absurd hall.2.1 hbz⟩
    by_cases hoz : ob.zeroAreaEnd = ob.zeroAreaStart
    · have hso : s.data = ob.data := by rw [(h.src_shares hoz).1]
      rw [hso]
      exact ((h.dst_own hbz).alone o ob h.other_ne h.other_eq).symm
    · exact (h.src_own hoz).alone dst c h.ne h.dst_eq

theorem sharedEnd_iff (hm : m.Sound) {d₂ : Data} (hd₂ : m₂.heap.lookup c.data = some d₂)
    (hlt : b.stop + ob.getSize < 2 ^ 32) : SharedEnd b d ob ↔ c.data = s.data ∧ c.EndsInPlace d₂ ob.getSize := by
  rw [SharedEnd, h.data_eq_iff, and_assoc, and_assoc]
  refine and_congr_right fun heq => and_congr_right fun hbz => and_congr_right fun hoz => ?_
  obtain ⟨rfl, hheap₁⟩ := h.dst_shares hbz
  obtain ⟨-, od₁, hod₁, hheap₂⟩ := h.src_shares hoz
  -- both copies are counted on the block
  have hod₁' : od₁ = { d with count := d.count + 1 } := by
    rw [hheap₁, ← heq, AList.lookup_insert] at hod₁
    exact (Option.some.inj hod₁).symm
  have hd₂' : d₂ = { d with count := d.count + 2 } := by
    rw [hheap₂, ← heq, hod₁', AList.lookup_insert] at hd₂
    exact (Option.some.inj hd₂).symm
  have hinternal : b.getInternalEnd = b.stop := by
    obtain ⟨_, -, hin, -⟩ := hm.exists_block h.this_eq
    rw [hin.getInternalEnd_eq, hbz, Nat.sub_self, Nat.sub_zero]
  have hadd : add32 b.getInternalEnd ob.getSize = b.getInternalEnd + ob.getSize := add32_of_lt (by omega)
  have hcinternal : getInternalEnd { b with maxZeroAreaStart := b.zeroAreaStart } = b.getInternalEnd := rfl
  rw [EndsInPlace, hcinternal, hadd, hd₂']
  refine and_congr_right fun _ => ?_
  dsimp only
  omega

/-- The first copy grows by the size of the second buffer. -/
theorem grows (hm : m.Sound) (alloc : Allocator) (hbytes : m.bytes this = some out) (hlt : b.stop + ob.getSize < 2 ^ 32)
    (hsize : b.getSize + ob.getSize + sizeofData ≤ 2 ^ 32) :
    ∃ dirty m₃ c' g, m₂.addAtEnd alloc dst ob.getSize = some (dirty, m₃) ∧ g.length = ob.getSize ∧
      m₂.Becomes m₃ dst (some (out ++ g)) ∧ m₃.OwnsEnd dst ob.getSize ∧ m₃.buffers.lookup dst = some c' ∧
      c'.zeroAreaEnd = c'.zeroAreaStart ∧ (c'.data = s.data ↔ SharedEnd b d ob) ∧
      (b.data ≠ c'.data → ∀ k e, k ≠ dst → m₃.buffers.lookup k = some e → e.data ≠ c'.data) := by
  obtain ⟨hlen, -, hspan⟩ := hm.length_bytes h.this_eq hbytes
  have hsound := h.second.sound
  have hout : m₂.bytes dst = some out := (h.second.bytes_eq dst h.ne).trans (h.first.bytes_this.trans hbytes)
  obtain ⟨hclen, hcint, hcspan⟩ := hsound.length_bytes h.dst_eq hout
  obtain ⟨d₂, hd₂, -, -⟩ := hsound.exists_block h.dst_eq
  have hends := h.sharedEnd_iff hm hd₂ hlt
  rw [sizeofData] at hsize
  by_cases hplace : c.EndsInPlace d₂ ob.getSize
  · have hcstop : c.stop + ob.getSize < 2 ^ 32 := by
      by_cases hbz : b.zeroAreaEnd = b.zeroAreaStart
      · have : c.stop = b.stop := by rw [(h.dst_shares hbz).1]
        omega
      · have := (h.dst_own hbz).start_le
        omega
    obtain ⟨m₃, g, hm₃, hc₃, hg, hbec₃, howns⟩ := hsound.addAtEnd_inPlace alloc h.dst_eq hd₂ hout hplace hcstop
    refine ⟨_, m₃, _, g, hm₃, hg, hbec₃, howns, hc₃, h.dst_zeroArea, ?_, fun hbc k e hk he => ?_⟩
    · rw [hends]
      exact (and_iff_left hplace).symm
    · have hbz : b.zeroAreaEnd ≠ b.zeroAreaStart := fun hbz => hbc (by rw [(h.dst_shares hbz).1]; rfl)
      have he₂ := (hbec₃.buffers_eq k hk).symm.trans he
      by_cases hks : k = src
      · rw [hks, h.src_eq] at he₂
        cases he₂
        exact fun heq => hbz (h.data_eq_iff.mp heq.symm).2.1
      · exact (h.dst_own hbz).alone k e hk ((h.second.buffers_eq k hks).symm.trans he₂)
  · obtain ⟨m₃, c', g, hm₃, hc₃, hg, hbec₃, howns, hmoved⟩ :=
      hsound.addAtEnd_moved alloc h.dst_eq hd₂ hout hplace (by omega) (by rw [sizeofData]; omega)
    have halone : ∀ k e, k ≠ dst → m₃.buffers.lookup k = some e → e.data ≠ c'.data :=
      fun k e hk he => hbec₃.alone hsound hmoved.fresh hk he
    refine ⟨_, m₃, c', g, hm₃, hg, hbec₃, howns, hc₃, ?_, ?_, fun _ => halone⟩
    · rw [hmoved.zeroAreaEnd_eq, hmoved.zeroAreaStart_eq, h.dst_zeroArea]
    · refine ⟨fun heq => absurd heq.symm (halone src s h.ne.symm ?_), fun hshared => absurd (hends.mp hshared).2 hplace⟩
      exact (hbec₃.buffers_eq src h.ne.symm).trans h.src_eq

end

end FullCopies

/-- The two full copies, the first with `n` bytes more behind it. -/
structure Copies (m m₃ : Memory) (dst src this o : ℕ) (c s : Buffer) : Prop where
  sound : m₃.Sound
  dst_eq : m₃.buffers.lookup dst = some c
  src_eq : m₃.buffers.lookup src = some s
  /-- The first has no zero area. -/
  dst_zeroArea : c.zeroAreaEnd = c.zeroAreaStart
  src_zeroArea : s.zeroAreaEnd = s.zeroAreaStart
  /-- The other buffers are what they were. -/
  buffers_eq : ∀ k, k ≠ dst → k ≠ src → m₃.buffers.lookup k = m.buffers.lookup k
  /-- They have the bytes they had. -/
  bytes_eq : ∀ k, k ≠ dst → k ≠ src → m₃.bytes k = m.bytes k
  /-- The bytes of the second copy. -/
  bytes_src : m₃.bytes src = m.bytes o
  /-- The first copy is on the block of the first buffer, or alone. -/
  alone : ∀ b, m.buffers.lookup this = some b → b.data ≠ c.data →
    ∀ k e, k ≠ dst → m₃.buffers.lookup k = some e → e.data ≠ c.data

/-- Full copies are made, and the first grows by the size of the second. They are on one block only if the two buffers
are and the first grows there. -/
theorem Sound.copies (h : m.Sound) (alloc : Allocator) (hdst : m.buffers.lookup dst = none)
    (hsrc : m.buffers.lookup src = none) (hne : dst ≠ src) (hb : m.buffers.lookup this = some b)
    (hd : m.heap.lookup b.data = some d) (ho : m.buffers.lookup o = some ob) (hod : m.heap.lookup ob.data = some od)
    (hbytes : m.bytes this = some out) (hobytes : m.bytes o = some oout) (hfits : AppendFits b d ob od) :
    ∃ m₁ m₂ m₃ dirty c s g, m.createFullCopy alloc dst this = some m₁ ∧ m₁.createFullCopy alloc src o = some m₂ ∧
      m₂.buffers.lookup src = some s ∧ s.getSize = oout.length ∧
      m₂.addAtEnd alloc dst oout.length = some (dirty, m₃) ∧ Copies m m₃ dst src this o c s ∧
      m₃.bytes dst = some (out ++ g) ∧ g.length = oout.length ∧ m₃.OwnsEnd dst oout.length ∧
      (c.data = s.data ↔ SharedEnd b d ob) := by
  obtain ⟨m₁, m₂, c, s, hm₁, hm₂, hcopies⟩ := h.exists_fullCopies alloc hdst hsrc hne hb hd ho hod hfits
  obtain ⟨dirty, m₃, c', g, hm₃, hg, hbec₃, howns, hc₃, hzero₃, hdata₃, halone₃⟩ :=
    hcopies.grows h alloc hbytes hfits.stop_lt hfits.size_le
  have hbec₁ := hcopies.first
  have hbec₂ := hcopies.second
  have hs := hcopies.src_eq
  obtain ⟨holen, -, -⟩ := h.length_bytes ho hobytes
  obtain ⟨hslen, -, -⟩ := hbec₂.sound.length_bytes hs (hbec₂.bytes_this.trans hobytes)
  rw [← holen] at hm₃ hg howns
  refine ⟨m₁, m₂, m₃, dirty, c', s, g, hm₁, hm₂, hs, hslen.symm, hm₃, ⟨hbec₃.sound, hc₃,
    (hbec₃.buffers_eq src hne.symm).trans hs, hzero₃, hcopies.src_zeroArea, fun k hk hk' => ?_, fun k hk hk' => ?_, ?_,
    fun b' hb' => ?_⟩, hbec₃.bytes_this, hg, howns, hdata₃⟩
  · rw [hbec₃.buffers_eq k hk, hbec₂.buffers_eq k hk', hbec₁.buffers_eq k hk]
  · rw [hbec₃.bytes_eq k hk, hbec₂.bytes_eq k hk', hbec₁.bytes_eq k hk]
  · rw [hbec₃.bytes_eq src hne.symm, hbec₂.bytes_this]
  · obtain rfl := Option.some.inj (hb.symm.trans hb')
    exact halone₃

/-- Full copies are put together, unless an assertion stops the program. -/
theorem Sound.appendCopies (h : m.Sound) (asserts : Bool) (alloc : Allocator) (hdst : m.buffers.lookup dst = none)
    (hsrc : m.buffers.lookup src = none) (hne : dst ≠ src) (hb : m.buffers.lookup this = some b)
    (hd : m.heap.lookup b.data = some d) (ho : m.buffers.lookup o = some ob) (hod : m.heap.lookup ob.data = some od)
    (hbytes : m.bytes this = some out) (hobytes : m.bytes o = some oout) (hfits : AppendFits b d ob od) :
    if asserts = true ∧ SharedEnd b d ob then m.appendCopies asserts alloc dst src this o = none
    else ∃ m', m.appendCopies asserts alloc dst src this o = some m' ∧ m'.Sound ∧
      m'.bytes = Function.update m.bytes this (some (out ++ oout)) := by
  obtain ⟨m₁, m₂, m₃, dirty, c, s, g, hm₁, hm₂, hs, hslen, hm₃, hcopies, hout₃, hg, howns, hshared⟩ :=
    h.copies alloc hdst hsrc hne hb hd ho hod hbytes hobytes hfits
  obtain ⟨c', hc', hroom, hothers⟩ := id howns
  obtain rfl := Option.some.inj (hc'.symm.trans hcopies.dst_eq)
  have hprev : c'.endIterator.prev asserts oout.length = some (c'.iterator (c'.stop - oout.length)) :=
    prev_iterator asserts (by omega)
  split_ifs with hstops
  · obtain ⟨rfl, hend⟩ := hstops
    refine Option.eq_none_iff_forall_ne_some.mpr fun m' hm' => ?_
    simp only [Memory.appendCopies, hm₁, hm₂, hs, hslen, hm₃, hcopies.dst_eq, hprev, Option.bind_eq_bind,
      Option.bind_some, Option.bind_eq_some_iff] at hm'
    obtain ⟨heap, hheap, -⟩ := hm'
    exact data_ne_of_writeIterator hheap (hshared.mpr hend)
  · have hbytes_src : m₃.bytes src = some oout := hcopies.bytes_src.trans hobytes
    obtain ⟨sd, hsd, hsin, hscontent⟩ := hcopies.sound.exists_block hcopies.src_eq
    obtain ⟨-, -, hsspan⟩ := hcopies.sound.length_bytes hcopies.src_eq hbytes_src
    have hscontent : s.content sd.data = oout := Option.some.inj (hscontent.symm.trans hbytes_src)
    obtain ⟨c₀, cd, p, hc₀, hcd, -, hp, hpstop, hbecomes⟩ := hcopies.sound.overwriteEnd howns hout₃
    obtain rfl := Option.some.inj (hc₀.symm.trans hcopies.dst_eq)
    obtain ⟨_, -, hcin, -⟩ := hcopies.sound.exists_block hcopies.dst_eq
    have hczero := hcopies.dst_zeroArea
    have hszero := hcopies.src_zeroArea
    obtain rfl : c₀.stop - oout.length = p := by omega
    have hstart := hcin.start_le
    -- the bytes are written behind the first copy
    obtain ⟨heap, hwrite, hheap⟩ := @writeIterator_whole asserts m₃.heap c₀ s cd sd (c₀.stop - oout.length) hcd hsd hsin
      hszero hczero (by omega) (by omega) (by omega) hcin.stop_lt
      (fun heq => by have := hothers src s hne.symm hcopies.src_eq heq.symm; omega)
      (fun hasserts heq => hstops ⟨hasserts, hshared.mp heq⟩)
    rw [hscontent] at hheap
    have hbec₄ := hbecomes heap hheap
    rw [List.length_append, hg, Nat.add_sub_cancel, List.take_left] at hbec₄
    -- the buffer becomes the first copy, and the copies are destroyed
    have hthis : this ≠ dst := by
      rintro rfl
      rw [hdst] at hb
      cases hb
    have hthis' : this ≠ src := by
      rintro rfl
      rw [hsrc] at hb
      cases hb
    have hb₄ : m₃.buffers.lookup this = some b := (hcopies.buffers_eq this hthis hthis').trans hb
    obtain ⟨e, he, -, -⟩ := hbec₄.sound.exists_block hcopies.dst_eq
    obtain ⟨m₅, hm₅, hbec₅⟩ := hbec₄.sound.assign hb₄ hcopies.dst_eq he fun hbc => by
      have := hbec₄.sound.count_eq_one hcopies.dst_eq he (hcopies.alone b hb hbc)
      omega
    rw [hbec₄.bytes_this] at hbec₅
    have hs₅ : m₅.buffers.lookup src = some s := (hbec₅.buffers_eq src hthis'.symm).trans hcopies.src_eq
    obtain ⟨m₆, hm₆, hbec₆⟩ := hbec₅.sound.destroy hs₅
    have hc₆ : m₆.buffers.lookup dst = some c₀ := by
      rw [hbec₆.buffers_eq dst hne, hbec₅.buffers_eq dst hthis.symm]
      exact hcopies.dst_eq
    obtain ⟨m₇, hm₇, hbec₇⟩ := hbec₆.sound.destroy hc₆
    refine ⟨m₇, ?_, hbec₇.sound, funext fun k => ?_⟩
    · simp only [Memory.appendCopies, hm₁, hm₂, hs, hslen, hm₃, hcopies.dst_eq, hprev, hwrite, hm₅, hm₆, hm₇,
        Option.bind_eq_bind, Option.bind_some]
    · by_cases hk : k = this
      · rw [hk, hbec₇.bytes_eq this hthis, hbec₆.bytes_eq this hthis', hbec₅.bytes_this, Function.update_self]
      rw [Function.update_of_ne hk]
      by_cases hkd : k = dst
      · rw [hkd, hbec₇.bytes_this, bytes_eq_none hdst]
      by_cases hks : k = src
      · rw [hks, hbec₇.bytes_eq src hne.symm, hbec₆.bytes_this, bytes_eq_none hsrc]
      rw [hbec₇.bytes_eq k hkd, hbec₆.bytes_eq k hks, hbec₅.bytes_eq k hk, hbec₄.bytes_eq k hkd,
        hcopies.bytes_eq k hkd hks]

/-! ### Zero areas that become one -/

/-- What lies behind the zero area of a buffer. -/
def behindZeroArea (o : Buffer) (od : Data) : List UInt8 := slice od.data o.zeroAreaStart (o.stop - o.zeroAreaEnd)

/-- What lies behind the zero areas gets to where it belongs although it is written behind as many bytes as the areas
have: there is nothing, or there is room, and the bytes that are in the right place then are the same. -/
def LandsRight (b : Buffer) (d : Data) (o : Buffer) (od : Data) : Prop :=
  o.stop = o.zeroAreaEnd ∨
    b.stop + o.getSize ≤ d.size ∧
      slice (overwrite d.data (b.stop + (o.zeroAreaEnd - o.zeroAreaStart)) (behindZeroArea o od)) b.zeroAreaStart
        (o.stop - o.zeroAreaEnd) = behindZeroArea o od
deriving Decidable

/-- The bytes of `o` are behind those of `this`, and all other buffers are what they were. -/
def Appends (m : Memory) (this o : ℕ) (result : Option Memory) : Prop :=
  ∃ m', result = some m' ∧
    (∃ out oout, m.bytes this = some out ∧ m.bytes o = some oout ∧ m'.bytes this = some (out ++ oout)) ∧
    ∀ k, k ≠ this → m'.bytes k = m.bytes k

theorem not_appends_none : ¬ Appends m this o none := fun ⟨_, hm', _⟩ => nomatch hm'

/-- The buffer with `y` octets more at the end of its zero area. -/
def moreZeros (b : Buffer) (y : ℕ) : Buffer := { b with zeroAreaEnd := b.stop + y, stop := b.stop + y }

/-- The memory with it. -/
def growZeroArea (m : Memory) (this : ℕ) (b : Buffer) (d : Data) (y : ℕ) : Memory :=
  ⟨m.buffers.insert this (moreZeros b y), m.heap.insert b.data { d with dirtyEnd := b.stop + y }, m.recommendedStart⟩

/-- The first zero area grows. -/
theorem Sound.growZeroArea (h : m.Sound) (hb : m.buffers.lookup this = some b)
    (hd : m.heap.lookup b.data = some d) (hbytes : m.bytes this = some out) (hcount : d.count = 1)
    (hstop : b.stop = b.zeroAreaEnd) (hdirty : b.stop = d.dirtyEnd) {y : ℕ} (hlt : b.stop + y < 2 ^ 32) :
    m.Becomes (m.growZeroArea this b d y) this (some (out ++ List.replicate y 0)) := by
  have hholders := (h.block _ d hd).count_eq
  obtain ⟨x, y₀, z₀, z, hin, hsized, rfl, hz, hcov⟩ := h.exists_sized hb hd hbytes
  have halone : ∀ k c, k ≠ this → m.buffers.lookup k = some c → c.data ≠ b.data := fun k c hk hc hcb =>
    hk (Store.eq_of_holders_le_one (by omega) hb rfl hc hcb)
  obtain ⟨⟨o₁, o₂, o₃, o₄⟩, c₁, c₂, c₃⟩ := hcov this b hb rfl
  let b' : Buffer := { b with zeroAreaEnd := b.stop + y, stop := b.stop + y }
  let d' : Data := { d with dirtyEnd := b.stop + y }
  have hsized' : b'.Sized x (y₀ + y) 0 := by
    obtain ⟨e₁, e₂, e₃⟩ := hsized
    refine ⟨e₁, ?_, ?_⟩ <;> dsimp only [b'] <;> omega
  have hcov' : d'.Covers (z + y) b' := by
    refine ⟨⟨o₁, ?_, le_rfl, hlt⟩, c₁, ?_, ?_⟩ <;> dsimp only [b', d'] <;> omega
  have hz' : d'.dirtyEnd ≤ d'.size + (z + y) := by
    change b.stop + y ≤ d.size + (z + y)
    omega
  have hcontent : b'.content d'.data = b.content d.data ++ List.replicate y 0 := by
    have hnone : z₀ = 0 := by
      have := hsized.stop_eq
      have := hsized.zeroAreaEnd_eq
      omega
    rw [hsized'.content_eq, hsized.content_eq, hnone, slice_zero, List.append_nil, List.append_nil, List.append_assoc,
      ← List.replicate_add]
  rw [← hcontent]
  exact h.putBack hb hd b' d' rfl rfl hz' hcov' (fun k c hk hc hcb => absurd hcb (halone k c hk hc)) _

/-- Two zero areas that meet. The buffer `this` is alone on its block and ends with `y` zeros behind `x` bytes, `o`
begins with `yo` zeros and has `e` bytes behind them. -/
structure Meeting (m : Memory) (this o : ℕ) (b : Buffer) (d : Data) (ob : Buffer) (od : Data)
    (x y yo e : ℕ) : Prop where
  sound : m.Sound
  ne : this ≠ o
  this_eq : m.buffers.lookup this = some b
  block_eq : m.heap.lookup b.data = some d
  other_eq : m.buffers.lookup o = some ob
  otherBlock_eq : m.heap.lookup ob.data = some od
  inBounds : b.InBounds d
  otherInBounds : ob.InBounds od
  sized : b.Sized x y 0
  otherSized : ob.Sized 0 yo e
  count_eq : d.count = 1
  dirtyEnd_eq : b.stop = d.dirtyEnd
  zeroArea_pos : 0 < yo
  /-- There are blocks for all bytes. -/
  size_le : x + y + yo + e + sizeofData ≤ 2 ^ 32
  /-- There are offsets for them. -/
  stop_lt : b.stop + yo + e < 2 ^ 32

theorem Sound.exists_meeting (h : m.Sound) (hthis : this ≠ o) (hb : m.buffers.lookup this = some b)
    (hd : m.heap.lookup b.data = some d) (ho : m.buffers.lookup o = some ob) (hod : m.heap.lookup ob.data = some od)
    (hfits : AppendFits b d ob od) (hmeet : ZeroAreasMeet b d ob) :
    ∃ x y yo e, Meeting m this o b d ob od x y yo e := by
  obtain ⟨hcount, hstop, hdirty, hostart, hozero⟩ := hmeet
  obtain ⟨hsize, hend, -, -⟩ := hfits
  obtain ⟨d₀, hd₀, hin, hbytes⟩ := h.exists_block hb
  obtain rfl := Option.some.inj (hd.symm.trans hd₀)
  obtain ⟨od₀, hod₀, hoin, hobytes⟩ := h.exists_block ho
  obtain rfl := Option.some.inj (hod.symm.trans hod₀)
  obtain ⟨hlen, -, hspan⟩ := h.length_bytes hb hbytes
  obtain ⟨holen, -, hospan⟩ := h.length_bytes ho hobytes
  obtain ⟨x, y, z, hsized⟩ := hin.exists_sized
  obtain ⟨x', yo, e, hosized⟩ := hoin.exists_sized
  obtain ⟨e₁, e₂, e₃⟩ := id hsized
  obtain ⟨f₁, f₂, f₃⟩ := id hosized
  obtain rfl : z = 0 := by omega
  obtain rfl : x' = 0 := by omega
  rw [hoin.zeroSize_eq] at hozero
  exact ⟨x, y, yo, e, h, hthis, hb, hd, ho, hod, hin, hoin, hsized, hosized, hcount, hdirty, by omega, by omega,
    by omega⟩

namespace Meeting

variable {x y yo e : ℕ}

section

variable (h : Meeting m this o b d ob od x y yo e)
include h

theorem stop_eq : b.stop = b.zeroAreaEnd :=
  h.sized.stop_eq.trans h.sized.zeroAreaEnd_eq.symm

/-- The buffer is alone on its block. -/
theorem apart {k : ℕ} {c : Buffer} (hk : k ≠ this) (hc : m.buffers.lookup k = some c) : c.data ≠ b.data := by
  intro hcb
  have hcount := (h.sound.block _ d h.block_eq).count_eq
  have hone := h.count_eq
  exact hk (Store.eq_of_holders_le_one (by omega) h.this_eq rfl hc hcb)

theorem behindZeroArea_eq : behindZeroArea ob od = slice od.data ob.zeroAreaStart e := by
  obtain ⟨f₁, f₂, f₃⟩ := h.otherSized
  exact slice_congr (by omega) (.inr rfl)

theorem length_behindZeroArea : (behindZeroArea ob od).length = e := by
  have hle := h.otherInBounds.le_length h.otherSized
  have hstart := h.otherSized.zeroAreaStart_eq
  rw [h.behindZeroArea_eq]
  exact length_slice (by omega)

theorem bytes_this : m.bytes this = some (slice d.data b.start x ++ List.replicate y 0) := by
  rw [bytes_eq_content h.this_eq h.block_eq h.inBounds.toOrdered, h.sized.content_eq, slice_zero, List.append_nil]

theorem bytes_other : m.bytes o = some (List.replicate yo 0 ++ behindZeroArea ob od) := by
  rw [bytes_eq_content h.other_eq h.otherBlock_eq h.otherInBounds.toOrdered, h.otherSized.content_eq, slice_zero,
    List.nil_append, h.behindZeroArea_eq, h.otherSized.zeroAreaStart_eq]

theorem landsRight_iff : LandsRight b d ob od ↔
    e = 0 ∨ b.stop + yo + e ≤ d.size ∧
      slice (overwrite d.data (b.stop + yo) (behindZeroArea ob od)) b.zeroAreaStart e = behindZeroArea ob od := by
  obtain ⟨f₁, f₂, f₃⟩ := h.otherSized
  have hyo : ob.zeroAreaEnd - ob.zeroAreaStart = yo := by omega
  have he : ob.stop - ob.zeroAreaEnd = e := by omega
  have hosize : b.stop + ob.getSize = b.stop + yo + e := by
    rw [h.otherInBounds.getSize_eq]
    omega
  have hnone : ob.stop = ob.zeroAreaEnd ↔ e = 0 := by omega
  rw [LandsRight, hyo, he, hosize, hnone]

/-- The zero areas become one. -/
theorem grown :
    m.Becomes (m.growZeroArea this b d yo) this (some (slice d.data b.start x ++ List.replicate (y + yo) 0)) := by
  have hlt := h.stop_lt
  have hbec := h.sound.growZeroArea h.this_eq h.block_eq h.bytes_this h.count_eq h.stop_eq h.dirtyEnd_eq
    (show b.stop + yo < 2 ^ 32 by omega)
  rwa [List.append_assoc, ← List.replicate_add] at hbec

theorem sized_moreZeros : (moreZeros b yo).Sized x (y + yo) 0 := by
  obtain ⟨e₁, e₂, e₃⟩ := h.sized
  refine ⟨e₁, ?_, ?_⟩ <;> dsimp only [moreZeros] <;> omega

theorem lookup_grown : (m.growZeroArea this b d yo).heap.lookup ob.data = some od :=
  (AList.lookup_insert_ne (h.apart h.ne.symm h.other_eq)).trans h.otherBlock_eq

/-- What lies behind the zero areas is written behind as many bytes as they have. -/
theorem appendZeroArea_eq (asserts : Bool) {dirty : Bool} {m₂ : Memory} {c : Buffer}
    (hm₂ : (m.growZeroArea this b d yo).addAtEnd alloc this e = some (dirty, m₂)) (hc : m₂.buffers.lookup this = some c)
    (hend : c.zeroAreaEnd + e = c.stop) (hstart : c.start ≤ c.zeroAreaEnd) (hlt : c.stop < 2 ^ 32)
    (hdata : c.data ≠ ob.data) : m.appendZeroArea asserts alloc this ob =
      (memcpy m₂.heap c.data c.zeroAreaEnd ob.data ob.zeroAreaStart e).map fun heap => { m₂ with heap := heap } := by
  obtain ⟨f₁, f₂, f₃⟩ := h.otherSized
  have hstop := h.stop_eq
  have hpos := h.zeroArea_pos
  have hsum := h.stop_lt
  have hozero : sub32 ob.zeroAreaEnd ob.zeroAreaStart = yo := h.otherInBounds.zeroSize_eq.trans (by omega)
  have hendData : sub32 ob.stop ob.zeroAreaEnd = e := (sub32_of_le (by omega)).trans (by omega)
  have hadd : add32 b.zeroAreaEnd yo = b.stop + yo := (add32_of_lt (by omega)).trans (by omega)
  have hdst : c.endIterator.prev asserts e = some (c.iterator c.zeroAreaEnd) := by
    rw [endIterator, prev_iterator asserts (by omega)]
    congr 2
    omega
  have hsrc : ob.endIterator.prev asserts e = some (ob.iterator ob.zeroAreaEnd) := by
    rw [endIterator, prev_iterator asserts (by omega)]
    congr 2
    omega
  have hcopy := writeIterator_behind asserts m₂.heap h.otherInBounds.toOrdered (by omega) (by omega) hstart le_rfl hend
    hlt hdata
  simp only [growZeroArea, moreZeros] at hm₂
  simp only [Memory.appendZeroArea, view_eq h.this_eq h.block_eq, hozero, hendData, hadd, hm₂, hc, hdst, hsrc, hcopy,
    Option.bind_eq_bind, Option.bind_some]
  cases memcpy m₂.heap c.data c.zeroAreaEnd ob.data ob.zeroAreaStart e <;> rfl

end

/-- What the buffer has once the bytes are written in its block. -/
def landed (b : Buffer) (d : Data) (ob : Buffer) (od : Data) (x y yo e : ℕ) : List UInt8 :=
  slice d.data b.start x ++ (List.replicate (y + yo) 0 ++
    slice (overwrite d.data (b.stop + yo) (behindZeroArea ob od)) b.zeroAreaStart e)

section

variable (h : Meeting m this o b d ob od x y yo e)
include h

/-- In its block, the buffer grows by the place for the bytes. -/
theorem exists_addAtEnd (alloc : Allocator)
    (hplace : (moreZeros b yo).EndsInPlace { d with dirtyEnd := b.stop + yo } e) :
    ∃ m₂ g, (m.growZeroArea this b d yo).addAtEnd alloc this e = some (false, m₂) ∧
      m₂.buffers.lookup this = some (track { moreZeros b yo with stop := b.stop + yo + e }) ∧ g.length = e ∧
      m.Becomes m₂ this (some (slice d.data b.start x ++ List.replicate (y + yo) 0 ++ g)) ∧
      m₂.heap.lookup b.data = some { d with dirtyEnd := add32 (b.stop + yo) e } ∧
      m₂.heap.lookup ob.data = some od := by
  have hgrown := h.grown
  have hb₁ : (m.growZeroArea this b d yo).buffers.lookup this = some (moreZeros b yo) := AList.lookup_insert _
  have hd₁ : (m.growZeroArea this b d yo).heap.lookup (moreZeros b yo).data =
      some { d with dirtyEnd := b.stop + yo } := AList.lookup_insert _
  obtain ⟨m₂, g, hm₂, hc, hg, hbec₂, -⟩ :=
    hgrown.sound.addAtEnd_inPlace alloc hb₁ hd₁ hgrown.bytes_this hplace h.stop_lt
  refine ⟨m₂, g, hm₂, hc, hg, hgrown.trans hbec₂, ?_⟩
  rw [Memory.addAtEnd, view_eq hb₁ hd₁] at hm₂
  simp only [Option.bind_eq_bind, Option.bind_some, if_pos hplace, Option.some.injEq, Prod.mk.injEq] at hm₂
  rw [← hm₂.2]
  exact ⟨AList.lookup_insert _, (AList.lookup_insert_ne (h.apart h.ne.symm h.other_eq)).trans h.lookup_grown⟩

/-- The bytes of the block of a buffer that is alone on it. -/
theorem becomes_landed {m₂ : Memory} {out : Option (List UInt8)} {n : ℕ} {heap : Store ℕ Data}
    (hto : m.Becomes m₂ this out)
    (hc : m₂.buffers.lookup this = some (track { moreZeros b yo with stop := b.stop + yo + e }))
    (hd₂ : m₂.heap.lookup b.data = some { d with dirtyEnd := n }) (hroom : b.stop + yo + e ≤ d.size)
    (hheap : ∀ k, heap.lookup k = if k = b.data then
        some { d with dirtyEnd := n, data := overwrite d.data (b.stop + yo) (slice od.data ob.zeroAreaStart e) }
      else m₂.heap.lookup k) :
    m.Becomes { m₂ with heap := heap } this (some (landed b d ob od x y yo e)) := by
  let c : Buffer := track { moreZeros b yo with stop := b.stop + yo + e }
  let d' : Data := { d with
    dirtyEnd := n
    data := overwrite d.data (b.stop + yo) (slice od.data ob.zeroAreaStart e) }
  obtain ⟨e₁, e₂, e₃⟩ := h.sized
  obtain ⟨-, -, -, z, hz, hcov⟩ := hto.sound.block _ _ hd₂
  have hlength := h.length_behindZeroArea
  rw [h.behindZeroArea_eq] at hlength
  have hdsize : d'.size = d.size := length_overwrite (by rw [hlength]; exact hroom)
  have hbec : m₂.Becomes { m₂ with heap := heap } this (some (c.content d'.data)) := by
    refine hto.sound.replace hd₂ rfl rfl (hz.trans_eq (by rw [hdsize]; rfl))
      ((hcov this c hc rfl).congr le_rfl le_rfl rfl rfl rfl rfl) (fun k i hk hi hic => absurd hic ?_) hc
      (fun k _ => rfl) (fun a => rfl) hheap
    exact h.apart hk ((hto.buffers_eq k hk).symm.trans hi)
  have hcsized : c.Sized x (y + yo) e := by
    refine ⟨e₁, ?_, ?_⟩ <;> dsimp only [c, track, moreZeros] <;> omega
  have hcontent : c.content d'.data = landed b d ob od x y yo e := by
    have hfront : slice d'.data b.start x = slice d.data b.start x :=
      slice_overwrite_of_le (by omega) (by rw [← Data.size]; omega)
    rw [hcsized.content_eq, landed, h.behindZeroArea_eq, e₁]
    exact congrArg₂ (· ++ ·) hfront rfl
  rw [← hcontent]
  exact hto.trans hbec

/-- The bytes are written there if there are any and there is room for them behind their place. -/
theorem appendZeroArea_inPlace (asserts : Bool) (alloc : Allocator)
    (hplace : (moreZeros b yo).EndsInPlace { d with dirtyEnd := b.stop + yo } e) :
    if e = 0 ∨ b.stop + yo + e ≤ d.size then
      ∃ m', m.appendZeroArea asserts alloc this ob = some m' ∧ m.Becomes m' this (some (landed b d ob od x y yo e))
    else m.appendZeroArea asserts alloc this ob = none := by
  obtain ⟨m₂, g, hm₂, hc, hg, hto, hd₂, hod₂⟩ := h.exists_addAtEnd alloc hplace
  have hdata : b.data ≠ ob.data := (h.apart h.ne.symm h.other_eq).symm
  have hstop := h.sized.stop_eq
  have hresult := h.appendZeroArea_eq asserts hm₂ hc rfl (show b.start ≤ b.stop + yo by omega) h.stop_lt hdata
  rw [hresult]
  have hlength := h.length_behindZeroArea
  by_cases hnone : e = 0
  · -- nothing is written
    have hg₀ : g = [] := List.length_eq_zero_iff.mp (hg.trans hnone)
    rw [if_pos (.inl hnone), hnone, memcpy, if_pos rfl]
    refine ⟨m₂, rfl, ?_⟩
    rw [landed, slice_zero, List.append_nil]
    rwa [hg₀, List.append_nil] at hto
  by_cases hroom : b.stop + yo + e ≤ d.size
  · -- the bytes are written behind their place
    have holength := h.otherInBounds.le_length h.otherSized
    have hostart := h.otherSized.zeroAreaStart_eq
    obtain ⟨heap, hcopy, hheap⟩ := memcpy_spec (p := b.stop + yo) (q := ob.zeroAreaStart) (n := e) hd₂ hod₂
      (by rw [Data.size]; omega) hroom
    rw [if_pos (.inr hroom)]
    refine ⟨{ m₂ with heap := heap }, (congrArg _ hcopy).trans rfl, ?_⟩
    exact h.becomes_landed hto hc hd₂ hroom hheap
  · -- there is no room behind their place
    rw [if_neg (not_or.mpr ⟨hnone, hroom⟩)]
    exact (congrArg _ (memcpy_eq_none hd₂ hnone (Nat.not_le.mp hroom))).trans rfl

/-- In a new block there is no room for them. -/
theorem appendZeroArea_moved (asserts : Bool) (alloc : Allocator)
    (hplace : ¬ (moreZeros b yo).EndsInPlace { d with dirtyEnd := b.stop + yo } e) :
    m.appendZeroArea asserts alloc this ob = none ∧ e ≠ 0 ∧ d.size < b.stop + yo + e := by
  obtain ⟨e₁, e₂, e₃⟩ := h.sized
  have hlt := h.stop_lt
  have hsize := h.size_le
  rw [sizeofData] at hsize
  have hle := h.inBounds.le_length h.sized
  have hgrown := h.grown
  have hb₁ : (m.growZeroArea this b d yo).buffers.lookup this = some (moreZeros b yo) := AList.lookup_insert _
  have hd₁ : (m.growZeroArea this b d yo).heap.lookup (moreZeros b yo).data =
      some { d with dirtyEnd := b.stop + yo } := AList.lookup_insert _
  have hord : (moreZeros b yo).Ordered :=
    h.sized_moreZeros.ordered (show b.start + x + (y + yo) + 0 < 2 ^ 32 by omega)
  have hinternal : (moreZeros b yo).getInternalSize = x := h.sized_moreZeros.getInternalSize_eq hord
  have hgetSize : (moreZeros b yo).getSize = b.stop + yo - b.start := hord.getSize_eq
  have hgetEnd : (moreZeros b yo).getInternalEnd = b.start + x :=
    hord.getInternalEnd_eq.trans (show b.stop + yo - (b.stop + yo - b.zeroAreaStart) = b.start + x by omega)
  have hfull : ¬ b.start + x + e ≤ d.size := fun hle => hplace
    ⟨by rw [hgetEnd, add32_of_lt (by omega)]; exact hle, fun hshared => Nat.ne_of_gt hshared.1 h.count_eq⟩
  have hnone : e ≠ 0 := by
    rintro rfl
    exact hfull hle
  obtain ⟨m₂, c, g, hm₂, hc, hg, hbec₂, -, hmoved⟩ := hgrown.sound.addAtEnd_moved alloc hb₁ hd₁ hgrown.bytes_this
    hplace (by omega) (by rw [hinternal, sizeofData]; omega)
  obtain ⟨d₂, hd₂, hsize₂⟩ := hmoved.size_eq
  have hczero : c.zeroAreaEnd = b.stop + yo - b.start := hmoved.zeroAreaEnd_eq
  have hcstop : c.stop = b.stop + yo - b.start + e := hmoved.stop_eq
  have hcstart := hmoved.start_eq
  have hcdata : c.data ≠ ob.data := by
    intro heq
    have hfresh := hmoved.fresh
    rw [heq] at hfresh
    cases hfresh.symm.trans h.lookup_grown
  have hresult := h.appendZeroArea_eq asserts hm₂ hc (by omega) (by omega) (by omega) hcdata
  rw [hinternal] at hsize₂
  have hpos := h.zeroArea_pos
  have hcopy : memcpy m₂.heap c.data c.zeroAreaEnd ob.data ob.zeroAreaStart e = none :=
    memcpy_eq_none hd₂ hnone (by omega)
  rw [hresult, hcopy]
  rw [← Data.size] at hle
  exact ⟨rfl, hnone, by omega⟩

theorem appendZeroArea_spec (asserts : Bool) (alloc : Allocator) :
    if e = 0 ∨ b.stop + yo + e ≤ d.size then
      ∃ m', m.appendZeroArea asserts alloc this ob = some m' ∧ m.Becomes m' this (some (landed b d ob od x y yo e))
    else m.appendZeroArea asserts alloc this ob = none := by
  by_cases hplace : (moreZeros b yo).EndsInPlace { d with dirtyEnd := b.stop + yo } e
  · exact h.appendZeroArea_inPlace asserts alloc hplace
  · obtain ⟨hresult, hnone, hfull⟩ := h.appendZeroArea_moved asserts alloc hplace
    rwa [if_neg (not_or.mpr ⟨hnone, Nat.not_le.mpr hfull⟩)]

theorem appends_landed_iff {m' : Memory} (hbec : m.Becomes m' this (some (landed b d ob od x y yo e))) :
    Appends m this o (some m') ↔
      slice (overwrite d.data (b.stop + yo) (behindZeroArea ob od)) b.zeroAreaStart e = behindZeroArea ob od := by
  have hexpected : slice d.data b.start x ++ List.replicate y 0 ++ (List.replicate yo 0 ++ behindZeroArea ob od) =
      slice d.data b.start x ++ (List.replicate (y + yo) 0 ++ behindZeroArea ob od) := by
    rw [List.replicate_add, List.append_assoc, List.append_assoc]
  constructor
  · rintro ⟨m₁, hm₁, ⟨out, oout, hout, hoout, heq⟩, -⟩
    cases hm₁
    obtain rfl := Option.some.inj (h.bytes_this.symm.trans hout)
    obtain rfl := Option.some.inj (h.bytes_other.symm.trans hoout)
    rw [hbec.bytes_this, hexpected, landed] at heq
    exact List.append_cancel_left (List.append_cancel_left (Option.some.inj heq))
  · intro hsame
    refine ⟨m', rfl, ⟨_, _, h.bytes_this, h.bytes_other, ?_⟩, hbec.bytes_eq⟩
    rw [hbec.bytes_this, hexpected, landed, hsame]

end

end Meeting

/-- What is written behind two zero areas that became one. The memory stays sound, if nothing is written outside of
it. -/
theorem Sound.appendZeroArea (h : m.Sound) (asserts : Bool) (alloc : Allocator) (hthis : this ≠ o)
    (hb : m.buffers.lookup this = some b) (hd : m.heap.lookup b.data = some d) (ho : m.buffers.lookup o = some ob)
    (hod : m.heap.lookup ob.data = some od) (hfits : AppendFits b d ob od) (hmeet : ZeroAreasMeet b d ob) :
    (Appends m this o (m.appendZeroArea asserts alloc this ob) ↔ LandsRight b d ob od) ∧
      ∀ m', m.appendZeroArea asserts alloc this ob = some m' → m'.Sound := by
  obtain ⟨x, y, yo, e, hmeeting⟩ := h.exists_meeting hthis hb hd ho hod hfits hmeet
  have hspec := hmeeting.appendZeroArea_spec asserts alloc
  rw [hmeeting.landsRight_iff]
  split_ifs at hspec with hfit
  · obtain ⟨m', hm', hbec⟩ := hspec
    rw [hm', hmeeting.appends_landed_iff hbec]
    refine ⟨?_, fun _ hm'' => Option.some.inj hm'' ▸ hbec.sound⟩
    by_cases hnone : e = 0
    · have hempty : behindZeroArea ob od = [] :=
        List.length_eq_zero_iff.mp (hmeeting.length_behindZeroArea.trans hnone)
      exact iff_of_true (by rw [hnone, slice_zero, hempty]) (.inl hnone)
    · rw [or_iff_right hnone, and_iff_right (hfit.resolve_left hnone)]
  · rw [hspec]
    exact ⟨iff_of_false not_appends_none fun hright => hfit (hright.imp_right And.left), fun _ hm' => nomatch hm'⟩

/-! ### Any two buffers -/

/-- Where zero areas meet, what lies behind them gets to its place; elsewhere the copies are not on one block, if
assertions are checked. -/
def AppendsRight (asserts : Bool) (b : Buffer) (d : Data) (o : Buffer) (od : Data) : Prop :=
  if ZeroAreasMeet b d o then LandsRight b d o od else ¬ (asserts = true ∧ SharedEnd b d o)
deriving Decidable

theorem lookup_of_view {k : ℕ} {c : Buffer} {e : Data} (h : m.view k = some (c, e)) :
    m.buffers.lookup k = some c ∧ m.heap.lookup c.data = some e := by
  simp only [view, Option.bind_eq_bind, Option.bind_eq_some_iff, Option.some.injEq, Prod.mk.injEq] at h
  obtain ⟨_, hc, _, he, rfl, rfl⟩ := h
  exact ⟨hc, he⟩

theorem appendBuffer_eq (asserts : Bool) (alloc : Allocator) (dst src : ℕ) (hb : m.view this = some (b, d))
    (ho : m.view o = some (ob, od)) : m.appendBuffer asserts alloc dst src this o =
      if ZeroAreasMeet b d ob then m.appendZeroArea asserts alloc this ob
      else m.appendCopies asserts alloc dst src this o := by
  simp only [appendBuffer, hb, (lookup_of_view ho).1, Option.bind_eq_bind, Option.bind_some]

/-- When `AddAtEnd (o)` puts the bytes of `o` behind those of the buffer, and leaves all other buffers. -/
theorem appendBuffer_iff (h : m.Sound) (asserts : Bool) (alloc : Allocator) (hthis : this ≠ o) (hne : dst ≠ src)
    (hdst : m.buffers.lookup dst = none) (hsrc : m.buffers.lookup src = none) (hb : m.view this = some (b, d))
    (ho : m.view o = some (ob, od)) (hfits : AppendFits b d ob od) :
    Appends m this o (m.appendBuffer asserts alloc dst src this o) ↔ AppendsRight asserts b d ob od := by
  obtain ⟨hb', hd⟩ := lookup_of_view hb
  obtain ⟨ho', hod⟩ := lookup_of_view ho
  obtain ⟨_, -, -, hbytes⟩ := h.exists_block hb'
  obtain ⟨_, -, -, hobytes⟩ := h.exists_block ho'
  rw [appendBuffer_eq asserts alloc dst src hb ho, AppendsRight]
  by_cases hmeet : ZeroAreasMeet b d ob
  · rw [if_pos hmeet, if_pos hmeet]
    exact (h.appendZeroArea asserts alloc hthis hb' hd ho' hod hfits hmeet).1
  rw [if_neg hmeet, if_neg hmeet]
  have hcopies := h.appendCopies asserts alloc hdst hsrc hne hb' hd ho' hod hbytes hobytes hfits
  split_ifs at hcopies with hstops
  · rw [hcopies]
    exact iff_of_false not_appends_none (not_not.mpr hstops)
  · obtain ⟨m', hm', -, hbytes'⟩ := hcopies
    refine iff_of_true ⟨m', hm', ⟨_, _, hbytes, hobytes, ?_⟩, fun k hk => ?_⟩ hstops
    · rw [hbytes', Function.update_self]
    · rw [hbytes', Function.update_of_ne hk]

/-- `AddAtEnd (o)` leaves a sound memory, whatever it puts behind the buffer. -/
theorem Sound.appendBuffer (h : m.Sound) {asserts : Bool} {alloc : Allocator} {m' : Memory} (hthis : this ≠ o)
    (hne : dst ≠ src) (hdst : m.buffers.lookup dst = none) (hsrc : m.buffers.lookup src = none)
    (hb : m.view this = some (b, d)) (ho : m.view o = some (ob, od)) (hfits : AppendFits b d ob od)
    (hm' : m.appendBuffer asserts alloc dst src this o = some m') : m'.Sound := by
  obtain ⟨hb', hd⟩ := lookup_of_view hb
  obtain ⟨ho', hod⟩ := lookup_of_view ho
  obtain ⟨_, -, -, hbytes⟩ := h.exists_block hb'
  obtain ⟨_, -, -, hobytes⟩ := h.exists_block ho'
  rw [appendBuffer_eq asserts alloc dst src hb ho] at hm'
  split_ifs at hm' with hmeet
  · exact (h.appendZeroArea asserts alloc hthis hb' hd ho' hod hfits hmeet).2 m' hm'
  · have hcopies := h.appendCopies asserts alloc hdst hsrc hne hb' hd ho' hod hbytes hobytes hfits
    split_ifs at hcopies with hstops
    · cases hcopies.symm.trans hm'
    · obtain ⟨m₁, hm₁, hsound, -⟩ := hcopies
      rwa [Option.some.inj (hm'.symm.trans hm₁)]

theorem sound_zeroAreas : ∃ tr m m', machine.Run empty tr m ∧ m.appendBuffer true .ascending 2 3 0 1 = some m' ∧
    m'.Sound := by
  obtain ⟨⟨tr, m⟩, -, hrun, hfits, hcond, hb, ho, hdst, hsrc, hsome⟩ := Machine.exists_replay (M := machine) empty
    [(.create 0 2, .ascending), (.create 1 3, .ascending)]
    (P := fun out => Machine.Meets (fun m e => Event.Fits m e.1) out.1 ∧
      (∀ x ∈ out.2.view 0, ∀ y ∈ out.2.view 1, AppendFits x.1 x.2 y.1 y.2) ∧
      (out.2.view 0).isSome ∧ (out.2.view 1).isSome ∧ out.2.buffers.lookup 2 = none ∧ out.2.buffers.lookup 3 = none ∧
      (out.2.appendBuffer true .ascending 2 3 0 1).isSome) (by decide +kernel)
  obtain ⟨⟨b, d⟩, hb⟩ := Option.isSome_iff_exists.mp hb
  obtain ⟨⟨ob, od⟩, ho⟩ := Option.isSome_iff_exists.mp ho
  obtain ⟨m', hm'⟩ := Option.isSome_iff_exists.mp hsome
  exact ⟨tr, m, m', hrun, hm', (isolated_run hrun hfits).1.appendBuffer (by decide) (by decide) hdst hsrc hb ho
    (hcond _ hb _ ho) hm'⟩

/-- `appendBuffer_iff` for two buffers with zero areas that share a block. -/
theorem appendBuffer_sharedBlock : ∃ tr m, machine.Run empty tr m ∧
    Appends m 0 1 (m.appendBuffer true .ascending 2 3 0 1) ∧ m.bytes 0 = some [1, 2, 0, 0, 7] ∧
    m.bytes 1 = some [0, 7] := by
  obtain ⟨⟨tr, m⟩, -, hrun, hfits, hcond, hb, ho, hdst, hsrc, hbytes⟩ := Machine.exists_replay (M := machine) empty
    [(.create 0 2, .ascending), (.addAtStart 0 [1, 2], .ascending), (.addAtEnd 0 [7], .ascending),
      (.copy 1 0, .ascending), (.removeAtStart 1 3, .ascending)]
    (P := fun out => Machine.Meets (fun m e => Event.Fits m e.1) out.1 ∧
      (∀ x ∈ out.2.view 0, ∀ y ∈ out.2.view 1, AppendFits x.1 x.2 y.1 y.2 ∧ AppendsRight true x.1 x.2 y.1 y.2) ∧
      (out.2.view 0).isSome ∧ (out.2.view 1).isSome ∧ out.2.buffers.lookup 2 = none ∧ out.2.buffers.lookup 3 = none ∧
      out.2.bytes 0 = some [1, 2, 0, 0, 7] ∧ out.2.bytes 1 = some [0, 7]) (by decide +kernel)
  obtain ⟨⟨b, d⟩, hb⟩ := Option.isSome_iff_exists.mp hb
  obtain ⟨⟨ob, od⟩, ho⟩ := Option.isSome_iff_exists.mp ho
  obtain ⟨hnumbers, hright⟩ := hcond _ hb _ ho
  exact ⟨tr, m, hrun, (appendBuffer_iff (isolated_run hrun hfits).1 true .ascending (by decide) (by decide) hdst hsrc hb
    ho hnumbers).mpr hright, hbytes⟩

/-- A buffer that is empty, on a block with room, and one with a zero and the byte 7. -/
def zeroAndByte : List (Event × Allocator) :=
  [(.create 0 0, .ascending), (.addAtEnd 0 [1, 2], .ascending), (.removeAtEnd 0 2, .ascending),
    (.addAtEnd 0 [], .ascending), (.create 1 1, .ascending), (.addAtEnd 1 [7], .ascending)]

/-- The byte is not behind the zero, where there is what was in the block. -/
theorem not_appends_zeroAndByte : ∃ tr m, machine.Run empty tr m ∧ m.bytes 0 = some [] ∧ m.bytes 1 = some [0, 7] ∧
    ∀ asserts, ¬ Appends m 0 1 (m.appendBuffer asserts .ascending 2 3 0 1) := by
  obtain ⟨⟨tr, m⟩, -, hrun, hb, ho, hresult⟩ := Machine.exists_replay (M := machine) empty zeroAndByte
    (P := fun out => out.2.bytes 0 = some [] ∧ out.2.bytes 1 = some [0, 7] ∧ ∀ asserts,
      (out.2.appendBuffer asserts .ascending 2 3 0 1).bind (·.bytes 0) = some [0, 1]) (by decide +kernel)
  refine ⟨tr, m, hrun, hb, ho, fun asserts happends => ?_⟩
  obtain ⟨m', hm', ⟨out, oout, hout, hoout, hbytes⟩, -⟩ := happends
  obtain rfl := Option.some.inj (hb.symm.trans hout)
  obtain rfl := Option.some.inj (ho.symm.trans hoout)
  have hfound := hresult asserts
  rw [hm', Option.bind_some, hbytes] at hfound
  exact absurd hfound (by decide)

end Memory

end Buffer

end Ns3
