import Ns3.Network.Buffer

/-!
# Buffers that share blocks

What the memory of `Ns3.Network.Buffer` looks like when its buffers do not touch each other. A block covers
its buffers (`Data.Covers`): they start in its dirty range, and each would still end in it if its zero area were
as large as the largest that a buffer on the block can have. That size is what the offsets of two buffers with
zero areas of different sizes are compared by, and it is nowhere in the program.

`Memory.Sound` is this with the reference counts. `Becomes` says what an operation does to a sound memory:
it changes the bytes of one buffer and leaves all others. The operations are made of five moves: a buffer leaves
its block (`Sound.drop`), is made on a block of its own (`Sound.make`) or of another (`Sound.acquire`), goes to
a new block (`Sound.move`), or changes on its block (`Sound.replace`).
-/

namespace Ns3

open Lib

namespace Buffer

/-! ### The offsets of a buffer -/

/-- The offsets of a buffer are in order. -/
structure Ordered (b : Buffer) : Prop where
  /-- The buffer starts before its zero area. -/
  start_le : b.start ≤ b.zeroAreaStart
  zeroAreaStart_le : b.zeroAreaStart ≤ b.zeroAreaEnd
  /-- The buffer ends behind its zero area. -/
  zeroAreaEnd_le : b.zeroAreaEnd ≤ b.stop
  /-- The offsets are numbers of `uint32_t`. -/
  stop_lt : b.stop < 2 ^ 32

namespace Ordered

variable {b : Buffer} (h : b.Ordered)
include h

theorem getSize_eq : b.getSize = b.stop - b.start := by
  obtain ⟨h₁, h₂, h₃, h₄⟩ := h
  exact sub32_of_le (by omega)

theorem zeroSize_eq : sub32 b.zeroAreaEnd b.zeroAreaStart = b.zeroAreaEnd - b.zeroAreaStart := by
  obtain ⟨h₁, h₂, h₃, h₄⟩ := h
  exact sub32_of_le h₂

theorem getInternalEnd_eq : b.getInternalEnd = b.stop - (b.zeroAreaEnd - b.zeroAreaStart) := by
  rw [getInternalEnd, h.zeroSize_eq]
  obtain ⟨h₁, h₂, h₃, h₄⟩ := h
  exact sub32_of_le (by omega)

theorem getInternalSize_eq :
    b.getInternalSize = (b.zeroAreaStart - b.start) + (b.stop - b.zeroAreaEnd) := by
  obtain ⟨h₁, h₂, h₃, h₄⟩ := h
  rw [getInternalSize, sub32_of_le h₁, add32, sub32]
  split_ifs <;> omega

end Ordered

/-- The bytes of a buffer whose block holds `l`. -/
def content (b : Buffer) (l : List UInt8) : List UInt8 :=
  slice l b.start (b.zeroAreaStart - b.start) ++
    (List.replicate (b.zeroAreaEnd - b.zeroAreaStart) 0 ++ slice l b.zeroAreaStart (b.stop - b.zeroAreaEnd))

variable {l : List UInt8}

theorem content_congr {b b' : Buffer} (h₁ : b'.start = b.start) (h₂ : b'.zeroAreaStart = b.zeroAreaStart)
    (h₃ : b'.zeroAreaEnd = b.zeroAreaEnd) (h₄ : b'.stop = b.stop) : b'.content l = b.content l := by
  rw [content, content, h₁, h₂, h₃, h₄]

/-- `CopyData` copies all of the buffer. -/
theorem Ordered.copyData_eq {b : Buffer} (h : b.Ordered) (d : Data) :
    b.copyData d b.getSize = b.content d.data := by
  have hzero := h.zeroSize_eq
  have hsize := h.getSize_eq
  obtain ⟨h₁, h₂, h₃, h₄⟩ := h
  have hstart : sub32 b.zeroAreaStart b.start = b.zeroAreaStart - b.start := sub32_of_le h₁
  have hend : sub32 b.stop b.zeroAreaEnd = b.stop - b.zeroAreaEnd := sub32_of_le h₃
  rw [copyData, content, hsize, hzero, hstart, hend, List.append_assoc]
  have e₁ : min (b.zeroAreaStart - b.start) (b.stop - b.start) = b.zeroAreaStart - b.start := by omega
  have e₂ : min (b.zeroAreaEnd - b.zeroAreaStart) (b.stop - b.start - (b.zeroAreaStart - b.start)) =
      b.zeroAreaEnd - b.zeroAreaStart := by omega
  have e₃ : min (b.stop - b.zeroAreaEnd) (b.stop - b.start - (b.zeroAreaStart - b.start) -
      (b.zeroAreaEnd - b.zeroAreaStart)) = b.stop - b.zeroAreaEnd := by omega
  simp only [e₁, e₂, e₃]

/-- A buffer with `x` bytes before its zero area, `y` bytes in it and `z` behind it. -/
structure Sized (b : Buffer) (x y z : ℕ) : Prop where
  /-- The bytes before the zero area. -/
  zeroAreaStart_eq : b.zeroAreaStart = b.start + x
  zeroAreaEnd_eq : b.zeroAreaEnd = b.start + x + y
  stop_eq : b.stop = b.start + x + y + z

theorem Ordered.exists_sized {b : Buffer} (h : b.Ordered) : ∃ x y z, b.Sized x y z := by
  obtain ⟨h₁, h₂, h₃, -⟩ := h
  refine ⟨b.zeroAreaStart - b.start, b.zeroAreaEnd - b.zeroAreaStart, b.stop - b.zeroAreaEnd, ?_, ?_, ?_⟩
  · omega
  · omega
  · omega

variable {x y z : ℕ}

theorem Sized.ordered {b : Buffer} (h : b.Sized x y z) (hlt : b.start + x + y + z < 2 ^ 32) : b.Ordered := by
  obtain ⟨hx, hy, hz⟩ := h
  constructor <;> omega

theorem Sized.content_eq {b : Buffer} (h : b.Sized x y z) (l : List UInt8) :
    b.content l = slice l b.start x ++ (List.replicate y 0 ++ slice l (b.start + x) z) := by
  obtain ⟨hx, hy, hz⟩ := h
  have e₁ : b.zeroAreaStart - b.start = x := by omega
  have e₂ : b.zeroAreaEnd - b.zeroAreaStart = y := by omega
  have e₃ : b.stop - b.zeroAreaEnd = z := by omega
  rw [content, e₁, e₂, e₃, hx]

theorem Sized.length_content {b : Buffer} (h : b.Sized x y z) (hl : b.start + x + z ≤ l.length) :
    (b.content l).length = x + y + z := by
  rw [h.content_eq, List.length_append, List.length_append, length_slice (by omega), length_slice hl,
    List.length_replicate]
  omega

theorem Sized.drop_content {b : Buffer} (h : b.Sized x y z) (hl : b.start + x + z ≤ l.length) (n : ℕ) :
    (b.content l).drop n = slice l (b.start + n) (x - n) ++
      (List.replicate (y - (n - x)) 0 ++ slice l (b.start + x + (n - (x + y))) (z - (n - (x + y)))) := by
  rw [h.content_eq, List.drop_append, List.drop_append, drop_slice, drop_slice, List.drop_replicate,
    length_slice (by omega), List.length_replicate, Nat.sub_sub]

theorem Sized.take_content {b : Buffer} (h : b.Sized x y z) (hl : b.start + x + z ≤ l.length) (n : ℕ) :
    (b.content l).take n = slice l b.start (min n x) ++
      (List.replicate (min (n - x) y) 0 ++ slice l (b.start + x) (min (n - (x + y)) z)) := by
  rw [h.content_eq, List.take_append, List.take_append, take_slice, take_slice, List.take_replicate,
    length_slice (by omega), List.length_replicate, Nat.sub_sub]

/-- The buffer lies within its block. -/
structure InBounds (b : Buffer) (d : Data) : Prop extends Ordered b where
  /-- The internal end is inside the allocation. -/
  internalEnd_le : b.stop - (b.zeroAreaEnd - b.zeroAreaStart) ≤ d.size

theorem InBounds.le_length {b : Buffer} {d : Data} (h : b.InBounds d) (hb : b.Sized x y z) :
    b.start + x + z ≤ d.data.length := by
  have hle := h.internalEnd_le
  obtain ⟨hx, hy, hz⟩ := hb
  rw [Data.size] at hle
  omega

/-! ### What a block has room for -/

/-- A block that covers a buffer: the buffer starts in the dirty range, and it would end there even if its
zero area were of size `z`. -/
structure Data.Covers (d : Data) (z : ℕ) (b : Buffer) : Prop extends Ordered b where
  /-- The buffer starts in the dirty range. -/
  dirtyStart_le : d.dirtyStart ≤ b.start
  /-- The zero area is of size `z` at most. -/
  zeroSize_le : b.zeroAreaEnd - b.zeroAreaStart ≤ z
  /-- The buffer ends in the dirty range. -/
  le_dirtyEnd : b.stop - (b.zeroAreaEnd - b.zeroAreaStart) + z ≤ d.dirtyEnd

theorem Data.Covers.inBounds {d : Data} {z : ℕ} {b : Buffer} (h : d.Covers z b)
    (hz : d.dirtyEnd ≤ d.size + z) : b.InBounds d :=
  ⟨h.toOrdered, by have := h.le_dirtyEnd; omega⟩

theorem Data.Covers.congr {d d' : Data} {z : ℕ} {b b' : Buffer} (h : d.Covers z b)
    (hstart : d'.dirtyStart ≤ d.dirtyStart) (hend : d.dirtyEnd ≤ d'.dirtyEnd) (h₁ : b'.start = b.start)
    (h₂ : b'.zeroAreaStart = b.zeroAreaStart) (h₃ : b'.zeroAreaEnd = b.zeroAreaEnd) (h₄ : b'.stop = b.stop) :
    d'.Covers z b' := by
  obtain ⟨⟨o₁, o₂, o₃, o₄⟩, hs, hz, he⟩ := h
  refine ⟨⟨?_, ?_, ?_, ?_⟩, ?_, ?_, ?_⟩ <;> omega

/-! ### Removing bytes -/

@[simp] theorem data_removeAtStart (b : Buffer) (n : ℕ) : (b.removeAtStart n).data = b.data := by
  simp only [removeAtStart, track]
  split_ifs <;> rfl

@[simp] theorem data_removeAtEnd (b : Buffer) (n : ℕ) : (b.removeAtEnd n).data = b.data := by
  simp only [removeAtEnd, track]
  split_ifs <;> rfl

/-- `RemoveAtStart` takes bytes from the start, then from the zero area, then from the end. -/
theorem Sized.removeAtStart {b : Buffer} (h : b.Sized x y z) {n : ℕ} (hn : b.start + n < 2 ^ 32) :
    (b.removeAtStart n).Sized (x - n) (y - (n - x)) (z - (n - (x + y))) ∧
      (b.removeAtStart n).start = b.start + min n x + min (n - (x + y)) z := by
  obtain ⟨hx, hy, hz⟩ := h
  have hzero : sub32 b.zeroAreaEnd b.zeroAreaStart = y := (sub32_of_le (by omega)).trans (by omega)
  have hend : sub32 b.stop y = b.start + x + z := (sub32_of_le (by omega)).trans (by omega)
  simp only [Buffer.removeAtStart, track, add32_of_lt hn, hzero, hend]
  split_ifs with c₁ c₂ c₃
  · exact ⟨⟨by dsimp only; omega, by dsimp only; omega, by dsimp only; omega⟩, by dsimp only; omega⟩
  · have hdelta : sub32 (b.start + n) b.zeroAreaStart = n - x := (sub32_of_le (by omega)).trans (by omega)
    rw [hdelta, sub32_of_le (by omega), sub32_of_le (by omega)]
    exact ⟨⟨by dsimp only; omega, by dsimp only; omega, by dsimp only; omega⟩, by dsimp only; omega⟩
  · rw [sub32_of_le (by omega)]
    exact ⟨⟨by dsimp only; omega, by dsimp only; omega, by dsimp only; omega⟩, by dsimp only; omega⟩
  · exact ⟨⟨by dsimp only; omega, by dsimp only; omega, by dsimp only; omega⟩, by dsimp only; omega⟩

/-- `RemoveAtEnd` takes bytes from the end, then from the zero area, then from the start. -/
theorem Sized.removeAtEnd {b : Buffer} (h : b.Sized x y z) (n : ℕ) :
    (b.removeAtEnd n).Sized (min (x + y + z - n) x) (min (x + y + z - n - x) y)
        (min (x + y + z - n - (x + y)) z) ∧
      (b.removeAtEnd n).start = b.start := by
  obtain ⟨hx, hy, hz⟩ := h
  have hsize : sub32 b.stop b.start = x + y + z := (sub32_of_le (by omega)).trans (by omega)
  have hend : sub32 b.stop (min n (x + y + z)) = b.start + (x + y + z - n) :=
    (sub32_of_le (by omega)).trans (by omega)
  simp only [Buffer.removeAtEnd, track, hsize, hend]
  split_ifs with c₁ c₂ c₃
  · exact ⟨⟨by dsimp only; omega, by dsimp only; omega, by dsimp only; omega⟩, rfl⟩
  · exact ⟨⟨by dsimp only; omega, by dsimp only; omega, by dsimp only; omega⟩, rfl⟩
  · exact ⟨⟨by dsimp only; omega, by dsimp only; omega, by dsimp only; omega⟩, rfl⟩
  · exact ⟨⟨by dsimp only; omega, by dsimp only; omega, by dsimp only; omega⟩, rfl⟩

/-- A buffer that takes no more room, in the block and for zeros, than one that the block covers. -/
theorem Data.Covers.mono {d : Data} {z : ℕ} {b b' : Buffer} (h : d.Covers z b) {x₁ y₁ z₁ x₂ y₂ z₂ : ℕ}
    (hb : b.Sized x₁ y₁ z₁) (hb' : b'.Sized x₂ y₂ z₂) (hstart : b.start ≤ b'.start) (hy : y₂ ≤ y₁)
    (hend : b'.start + x₂ + z₂ ≤ b.start + x₁ + z₁) : d.Covers z b' := by
  obtain ⟨⟨h₁, h₂, h₃, h₄⟩, h₅, h₆, h₇⟩ := h
  obtain ⟨e₁, e₂, e₃⟩ := hb
  obtain ⟨f₁, f₂, f₃⟩ := hb'
  refine ⟨⟨?_, ?_, ?_, ?_⟩, ?_, ?_, ?_⟩ <;> omega

theorem Data.Covers.removeAtStart {d : Data} {z : ℕ} {b : Buffer} (h : d.Covers z b) {n : ℕ}
    (hn : b.start + n < 2 ^ 32) : d.Covers z (b.removeAtStart n) := by
  obtain ⟨x, y, w, hb⟩ := h.exists_sized
  obtain ⟨hb', hstart⟩ := hb.removeAtStart hn
  exact h.mono hb hb' (by omega) (by omega) (by omega)

theorem Data.Covers.removeAtEnd {d : Data} {z : ℕ} {b : Buffer} (h : d.Covers z b) (n : ℕ) :
    d.Covers z (b.removeAtEnd n) := by
  obtain ⟨x, y, w, hb⟩ := h.exists_sized
  obtain ⟨hb', hstart⟩ := hb.removeAtEnd n
  exact h.mono hb hb' (by omega) (by omega) (by omega)

theorem InBounds.content_removeAtStart {b : Buffer} {d : Data} (h : b.InBounds d) {n : ℕ}
    (hn : b.start + n < 2 ^ 32) : (b.removeAtStart n).content d.data = (b.content d.data).drop n := by
  obtain ⟨x, y, z, hb⟩ := h.exists_sized
  obtain ⟨hb', hstart⟩ := hb.removeAtStart hn
  rw [hb.drop_content (h.le_length hb), hb'.content_eq, hstart]
  refine congrArg₂ (· ++ ·) ?_ (congrArg₂ (· ++ ·) rfl ?_)
  · exact slice_congr rfl (by omega)
  · exact slice_congr rfl (by omega)

theorem InBounds.content_removeAtEnd {b : Buffer} {d : Data} (h : b.InBounds d) (n : ℕ) :
    (b.removeAtEnd n).content d.data = (b.content d.data).take ((b.content d.data).length - n) := by
  obtain ⟨x, y, z, hb⟩ := h.exists_sized
  obtain ⟨hb', hstart⟩ := hb.removeAtEnd n
  have hl := h.le_length hb
  rw [hb.take_content hl, hb.length_content hl, hb'.content_eq, hstart]
  refine congrArg₂ (· ++ ·) rfl (congrArg₂ (· ++ ·) rfl ?_)
  exact slice_congr rfl (by omega)

namespace Memory

/-! ### What holds of the memory -/

/-- What holds of the block at the address `a`: it counts the buffers on it, and it covers them all. -/
structure BlockSound (m : Memory) (a : ℕ) (d : Data) : Prop where
  /-- The block counts its buffers. -/
  count_eq : d.count = Store.holders Buffer.data m.buffers a
  /-- A block without buffers is given back. -/
  count_pos : 0 < d.count
  /-- The count is a number of `uint32_t`. -/
  count_lt : d.count < 2 ^ 32
  /-- For some size of the largest zero area, the dirty range lies in the block, and all buffers in it. -/
  covers : ∃ z, d.dirtyEnd ≤ d.size + z ∧
    ∀ k b, m.buffers.lookup k = some b → b.data = a → d.Covers z b

/-- Every buffer has a block, and the blocks are sound. -/
structure Sound (m : Memory) : Prop where
  /-- No buffer is left without its block. -/
  held : ∀ k b, m.buffers.lookup k = some b → ∃ d, m.heap.lookup b.data = some d
  block : ∀ a d, m.heap.lookup a = some d → m.BlockSound a d

/-- The bytes of `this` become `out`, the memory stays sound, and no other buffer is touched. -/
structure Becomes (m m' : Memory) (this : ℕ) (out : Option (List UInt8)) : Prop where
  sound : m'.Sound
  /-- Other buffers are what they were. -/
  buffers_eq : ∀ k, k ≠ this → m'.buffers.lookup k = m.buffers.lookup k
  /-- Other buffers have the bytes they had. -/
  bytes_eq : ∀ k, k ≠ this → m'.bytes k = m.bytes k
  bytes_this : m'.bytes this = out

theorem Becomes.trans {m₁ m₂ m₃ : Memory} {this : ℕ} {out out' : Option (List UInt8)}
    (h : m₁.Becomes m₂ this out) (h' : m₂.Becomes m₃ this out') : m₁.Becomes m₃ this out' where
  sound := h'.sound
  buffers_eq k hk := (h'.buffers_eq k hk).trans (h.buffers_eq k hk)
  bytes_eq k hk := (h'.bytes_eq k hk).trans (h.bytes_eq k hk)
  bytes_this := h'.bytes_this

variable {m m' : Memory} {this : ℕ} {b : Buffer} {d : Data} {out : List UInt8}

theorem view_eq (hb : m.buffers.lookup this = some b) (hd : m.heap.lookup b.data = some d) :
    m.view this = some (b, d) := by
  simp [view, hb, hd]

theorem bytes_eq_none (hb : m.buffers.lookup this = none) : m.bytes this = none := by
  simp [bytes, view, hb]

theorem bytes_eq_content (hb : m.buffers.lookup this = some b) (hd : m.heap.lookup b.data = some d)
    (ho : b.Ordered) : m.bytes this = some (b.content d.data) := by
  rw [bytes, view_eq hb hd, Option.map_some]
  exact congrArg some (ho.copyData_eq d)

theorem Sound.exists_block (h : m.Sound) (hb : m.buffers.lookup this = some b) :
    ∃ d, m.heap.lookup b.data = some d ∧ b.InBounds d ∧ m.bytes this = some (b.content d.data) := by
  obtain ⟨d, hd⟩ := h.held this b hb
  obtain ⟨z, hz, hcov⟩ := (h.block _ d hd).covers
  have hin := (hcov this b hb rfl).inBounds hz
  exact ⟨d, hd, hin, bytes_eq_content hb hd hin.toOrdered⟩

/-- What there is to know of a buffer: how its bytes lie in its block, and that the block covers all its buffers. -/
theorem Sound.exists_sized (h : m.Sound) (hb : m.buffers.lookup this = some b) (hd : m.heap.lookup b.data = some d)
    (hbytes : m.bytes this = some out) :
    ∃ x y z zs, b.InBounds d ∧ b.Sized x y z ∧ b.content d.data = out ∧ d.dirtyEnd ≤ d.size + zs ∧
      ∀ k c, m.buffers.lookup k = some c → c.data = b.data → d.Covers zs c := by
  obtain ⟨zs, hz, hcov⟩ := (h.block _ d hd).covers
  have hin := (hcov this b hb rfl).inBounds hz
  obtain ⟨x, y, z, hsized⟩ := hin.exists_sized
  exact ⟨x, y, z, zs, hin, hsized, Option.some.inj ((bytes_eq_content hb hd hin.toOrdered).symm.trans hbytes), hz, hcov⟩

/-- A buffer that is not touched, on a block that still has its bytes. -/
theorem Sound.bytes_congr (h : m.Sound) {k : ℕ} (hk : m'.buffers.lookup k = m.buffers.lookup k)
    (hd : ∀ b d, m.buffers.lookup k = some b → m.heap.lookup b.data = some d →
      ∃ d', m'.heap.lookup b.data = some d' ∧ b.content d'.data = b.content d.data) :
    m'.bytes k = m.bytes k := by
  cases hb : m.buffers.lookup k with
  | none => rw [bytes_eq_none hb, bytes_eq_none (hk.trans hb)]
  | some b =>
    obtain ⟨d, hd₀, hin, hbytes⟩ := h.exists_block hb
    obtain ⟨d', hd', hcontent⟩ := hd b d hb hd₀
    rw [hbytes, bytes_eq_content (hk.trans hb) hd' hin.toOrdered, hcontent]

theorem release_of_lookup {heap : Store ℕ Data} {a : ℕ} (hd : heap.lookup a = some d) (hpos : 0 < d.count)
    (hlt : d.count < 2 ^ 32) :
    ∃ heap', release heap a = some heap' ∧ (∀ a', a' ≠ a → heap'.lookup a' = heap.lookup a') ∧
      heap'.lookup a = if d.count = 1 then none else some { d with count := d.count - 1 } := by
  have hsub : sub32 d.count 1 = d.count - 1 := sub32_of_le hpos
  have hrel : release heap a = if sub32 d.count 1 = 0 then some (heap.erase a)
      else some (heap.insert a { d with count := sub32 d.count 1 }) := by
    simp only [release, hd, Option.bind_eq_bind, Option.bind_some]
  rw [hrel, hsub]
  by_cases hone : d.count = 1
  · refine ⟨heap.erase a, ?_, fun a' ha' => AList.lookup_erase_ne ha', ?_⟩
    · rw [if_pos (by omega)]
    · rw [AList.lookup_erase, if_pos hone]
  · refine ⟨heap.insert a { d with count := d.count - 1 }, ?_, fun a' ha' => AList.lookup_insert_ne ha', ?_⟩
    · rw [if_neg (by omega)]
    · rw [AList.lookup_insert, if_neg hone]

theorem release_lookup_ne {heap heap' : Store ℕ Data} {a a' : ℕ} (h : release heap a = some heap')
    (ha : a' ≠ a) : heap'.lookup a' = heap.lookup a' := by
  cases hd : heap.lookup a with
  | none => simp [release, hd] at h
  | some d =>
    simp only [release, hd, Option.bind_eq_bind, Option.bind_some] at h
    split_ifs at h
    · cases h
      exact AList.lookup_erase_ne ha
    · cases h
      exact AList.lookup_insert_ne ha

/-- A buffer leaves its block and is gone. -/
theorem Sound.drop (h : m.Sound) (hb : m.buffers.lookup this = some b) (r : ℕ) :
    ∃ heap, release m.heap b.data = some heap ∧
      (∀ a, m.heap.lookup a = none → heap.lookup a = none) ∧
      m.Becomes ⟨m.buffers.erase this, heap, r⟩ this none := by
  obtain ⟨d, hd⟩ := h.held this b hb
  have hblock := h.block _ d hd
  obtain ⟨heap, hrel, hne, hself⟩ := release_of_lookup hd hblock.count_pos hblock.count_lt
  -- another buffer on the block keeps it
  have hshared : ∀ k c, k ≠ this → m.buffers.lookup k = some c → c.data = b.data → d.count ≠ 1 := by
    intro k c hk hc hcb hone
    have := hblock.count_eq
    exact hk (Store.eq_of_holders_le_one (by omega) hb rfl hc hcb)
  have hlookup : ∀ k c, m.buffers.lookup k = some c → k ≠ this → ∀ e, m.heap.lookup c.data = some e →
      ∃ e', heap.lookup c.data = some e' ∧ e'.data = e.data := by
    intro k c hc hk e he
    by_cases hcb : c.data = b.data
    · obtain rfl : d = e := Option.some.inj (hd.symm.trans (hcb ▸ he))
      refine ⟨{ d with count := d.count - 1 }, ?_, rfl⟩
      rw [hcb, hself, if_neg (hshared k c hk hc hcb)]
    · exact ⟨e, (hne _ hcb).trans he, rfl⟩
  refine ⟨heap, hrel, fun a ha => ?_, ⟨fun k c hc => ?_, fun a e he => ?_⟩,
    fun k hk => AList.lookup_erase_ne hk, fun k hk => ?_, bytes_eq_none (AList.lookup_erase this _)⟩
  · rw [hne, ha]
    rintro rfl
    rw [ha] at hd
    cases hd
  · obtain ⟨hk, hc⟩ := Store.lookup_erase_some hc
    obtain ⟨e, he⟩ := h.held k c hc
    obtain ⟨e', he', -⟩ := hlookup k c hc hk e he
    exact ⟨e', he'⟩
  · have herase : Store.holders Buffer.data (m.buffers.erase this) a + (if b.data = a then 1 else 0) =
        Store.holders Buffer.data m.buffers a := Store.holders_erase hb a
    by_cases ha : a = b.data
    · subst ha
      by_cases hone : d.count = 1
      · rw [hself, if_pos hone] at he
        cases he
      rw [hself, if_neg hone, Option.some.injEq] at he
      subst he
      rw [if_pos rfl] at herase
      obtain ⟨hcount, hpos, hlt, z, hz, hcov⟩ := hblock
      refine ⟨by dsimp only; omega, by dsimp only; omega, by dsimp only; omega, z, hz, fun k c hc hca => ?_⟩
      exact (hcov k c (Store.lookup_erase_some hc).2 hca).congr le_rfl le_rfl rfl rfl rfl rfl
    · rw [hne a ha] at he
      rw [if_neg (Ne.symm ha), Nat.add_zero] at herase
      obtain ⟨hcount, hpos, hlt, z, hz, hcov⟩ := h.block a e he
      exact ⟨hcount.trans herase.symm, hpos, hlt, z, hz, fun k c hc hca =>
        hcov k c (Store.lookup_erase_some hc).2 hca⟩
  · refine h.bytes_congr (AList.lookup_erase_ne hk) fun c e hc he => ?_
    obtain ⟨e', he', hdata⟩ := hlookup k c hc hk e he
    exact ⟨e', he', by rw [hdata]⟩

/-- A buffer is made on a block of its own. -/
theorem Sound.make (h : m.Sound) (hthis : m.buffers.lookup this = none) (hfresh : m.heap.lookup b.data = none)
    (hcount : d.count = 1) {z : ℕ} (hz : d.dirtyEnd ≤ d.size + z) (hcov : d.Covers z b) (r : ℕ) :
    m.Becomes ⟨m.buffers.insert this b, m.heap.insert b.data d, r⟩ this (some (b.content d.data)) := by
  have hnone : ∀ k c, m.buffers.lookup k = some c → c.data ≠ b.data := by
    intro k c hc hcb
    obtain ⟨e, he⟩ := h.held k c hc
    rw [hcb, hfresh] at he
    cases he
  have hother : ∀ k, k ≠ this → (m.buffers.insert this b).lookup k = m.buffers.lookup k :=
    fun k hk => AList.lookup_insert_ne hk
  refine ⟨⟨fun k c hc => ?_, fun a e he => ?_⟩, hother, fun k hk => ?_,
    bytes_eq_content (AList.lookup_insert _) (AList.lookup_insert _) hcov.toOrdered⟩
  · rcases Store.lookup_insert_some hc with ⟨rfl, rfl⟩ | ⟨hk, hc⟩
    · exact ⟨d, AList.lookup_insert _⟩
    · obtain ⟨e, he⟩ := h.held k c hc
      exact ⟨e, (AList.lookup_insert_ne (hnone k c hc)).trans he⟩
  · have hholders : Store.holders Buffer.data (m.buffers.insert this b) a =
        Store.holders Buffer.data m.buffers a + if b.data = a then 1 else 0 :=
      Store.holders_insert_of_lookup_eq_none hthis b a
    rcases Store.lookup_insert_some he with ⟨rfl, rfl⟩ | ⟨ha, he⟩
    · rw [if_pos rfl, Store.holders_eq_zero hnone] at hholders
      refine ⟨hcount.trans hholders.symm, by omega, by omega, z, hz, fun k c hc hca => ?_⟩
      rcases Store.lookup_insert_some hc with ⟨-, rfl⟩ | ⟨-, hc⟩
      · exact hcov
      · exact absurd hca (hnone k c hc)
    · rw [if_neg (Ne.symm ha), Nat.add_zero] at hholders
      obtain ⟨hcount, hpos, hlt, z, hz, hcov⟩ := h.block a e he
      refine ⟨hcount.trans hholders.symm, hpos, hlt, z, hz, fun k c hc hca => ?_⟩
      rcases Store.lookup_insert_some hc with ⟨-, rfl⟩ | ⟨-, hc⟩
      · exact absurd hca.symm ha
      · exact hcov k c hc hca
  · refine h.bytes_congr (hother k hk) fun c e hc he => ⟨e, ?_, rfl⟩
    exact (AList.lookup_insert_ne (hnone k c hc)).trans he

/-- A buffer is made on the block of another, with its offsets. -/
theorem Sound.acquire (h : m.Sound) (hthis : m.buffers.lookup this = none) {o : ℕ} {ob : Buffer}
    (ho : m.buffers.lookup o = some ob) (hd : m.heap.lookup ob.data = some d) (hlt : d.count + 1 < 2 ^ 32)
    (h₀ : b.data = ob.data) (h₁ : b.start = ob.start) (h₂ : b.zeroAreaStart = ob.zeroAreaStart)
    (h₃ : b.zeroAreaEnd = ob.zeroAreaEnd) (h₄ : b.stop = ob.stop) (r : ℕ) :
    ∃ heap, retain m.heap ob.data = some heap ∧
      m.Becomes ⟨m.buffers.insert this b, heap, r⟩ this (m.bytes o) := by
  have hother : ∀ k, k ≠ this → (m.buffers.insert this b).lookup k = m.buffers.lookup k :=
    fun k hk => AList.lookup_insert_ne hk
  obtain ⟨hcount, hpos, -, z, hz, hcov⟩ := h.block _ d hd
  have hadd : add32 d.count 1 = d.count + 1 := add32_of_lt hlt
  have hbytes := bytes_eq_content ho hd (hcov o ob ho rfl).toOrdered
  have hb : d.Covers z b := (hcov o ob ho rfl).congr le_rfl le_rfl h₁ h₂ h₃ h₄
  refine ⟨m.heap.insert ob.data { d with count := d.count + 1 }, by simp [retain, hd, hadd],
    ⟨fun k c hc => ?_, fun a e he => ?_⟩, hother, fun k hk => ?_, ?_⟩
  · by_cases hcb : c.data = ob.data
    · exact ⟨{ d with count := d.count + 1 }, by rw [hcb]; exact AList.lookup_insert _⟩
    · rcases Store.lookup_insert_some hc with ⟨-, rfl⟩ | ⟨-, hc⟩
      · exact absurd h₀ hcb
      · obtain ⟨e, he⟩ := h.held k c hc
        exact ⟨e, (AList.lookup_insert_ne hcb).trans he⟩
  · have hholders : Store.holders Buffer.data (m.buffers.insert this b) a =
        Store.holders Buffer.data m.buffers a + if b.data = a then 1 else 0 :=
      Store.holders_insert_of_lookup_eq_none hthis b a
    rcases Store.lookup_insert_some he with ⟨rfl, rfl⟩ | ⟨ha, he⟩
    · rw [if_pos h₀] at hholders
      refine ⟨by dsimp only; omega, by dsimp only; omega, hlt, z, hz, fun k c hc hca => ?_⟩
      rcases Store.lookup_insert_some hc with ⟨-, rfl⟩ | ⟨-, hc⟩
      · exact hb.congr le_rfl le_rfl rfl rfl rfl rfl
      · exact (hcov k c hc hca).congr le_rfl le_rfl rfl rfl rfl rfl
    · rw [if_neg (fun hba => ha (hba.symm.trans h₀)), Nat.add_zero] at hholders
      obtain ⟨hcount, hpos, hlt, z, hz, hcov⟩ := h.block a e he
      refine ⟨hcount.trans hholders.symm, hpos, hlt, z, hz, fun k c hc hca => ?_⟩
      rcases Store.lookup_insert_some hc with ⟨-, rfl⟩ | ⟨-, hc⟩
      · exact absurd (hca.symm.trans h₀) ha
      · exact hcov k c hc hca
  · refine h.bytes_congr (hother k hk) fun c e hc he => ?_
    by_cases hcb : c.data = ob.data
    · obtain rfl : d = e := Option.some.inj (hd.symm.trans (hcb ▸ he))
      exact ⟨{ d with count := d.count + 1 }, by rw [hcb]; exact AList.lookup_insert _, rfl⟩
    · exact ⟨e, (AList.lookup_insert_ne hcb).trans he, rfl⟩
  · have hself : (m.heap.insert ob.data { d with count := d.count + 1 }).lookup b.data =
        some { d with count := d.count + 1 } := by
      rw [h₀]
      exact AList.lookup_insert _
    have hnew : Memory.bytes ⟨m.buffers.insert this b, m.heap.insert ob.data { d with count := d.count + 1 }, r⟩
        this = some (b.content d.data) :=
      bytes_eq_content (d := { d with count := d.count + 1 }) (AList.lookup_insert _) hself hb.toOrdered
    rw [hnew, hbytes, content_congr h₁ h₂ h₃ h₄]

theorem Sound.move (h : m.Sound) (hb : m.buffers.lookup this = some b) {b' : Buffer} {d' : Data}
    (hfresh : m.heap.lookup b'.data = none) (hcount : d'.count = 1) {z : ℕ} (hz : d'.dirtyEnd ≤ d'.size + z)
    (hcov : d'.Covers z b') (r : ℕ) :
    ∃ heap, release m.heap b.data = some heap ∧
      m.Becomes ⟨m.buffers.insert this b', heap.insert b'.data d', r⟩ this (some (b'.content d'.data)) := by
  obtain ⟨heap, hrel, hnone, hdrop⟩ := h.drop hb r
  have hmake := hdrop.sound.make (AList.lookup_erase this _) (hnone _ hfresh) hcount hz hcov r
  dsimp only at hmake
  rw [Store.insert_erase] at hmake
  exact ⟨heap, hrel, hdrop.trans hmake⟩

/-- A buffer and its block change, and the other buffers on the block do not see it. -/
theorem Sound.replace (h : m.Sound) (hd : m.heap.lookup b.data = some d)
    {b' : Buffer} {d' : Data} (hdata : b'.data = b.data) (hcount : d'.count = d.count) {z : ℕ}
    (hz : d'.dirtyEnd ≤ d'.size + z) (hcov : d'.Covers z b')
    (hothers : ∀ k c, k ≠ this → m.buffers.lookup k = some c → c.data = b.data →
      d'.Covers z c ∧ c.content d'.data = c.content d.data)
    (hthis : m'.buffers.lookup this = some b')
    (hbuffers : ∀ k, k ≠ this → m'.buffers.lookup k = m.buffers.lookup k)
    (hholders : ∀ a, Store.holders Buffer.data m'.buffers a = Store.holders Buffer.data m.buffers a)
    (hheap : ∀ a, m'.heap.lookup a = if a = b.data then some d' else m.heap.lookup a) :
    m.Becomes m' this (some (b'.content d'.data)) := by
  have hself : m'.heap.lookup b.data = some d' := (hheap _).trans (if_pos rfl)
  refine ⟨⟨fun k c hc => ?_, fun a e he => ?_⟩, hbuffers, fun k hk => ?_,
    bytes_eq_content hthis (by rw [hdata]; exact hself) hcov.toOrdered⟩
  · by_cases hcb : c.data = b.data
    · exact ⟨d', hcb ▸ hself⟩
    · by_cases hk : k = this
      · rw [hk, hthis, Option.some.injEq] at hc
        exact absurd (hc ▸ hdata) hcb
      · obtain ⟨e, he⟩ := h.held k c ((hbuffers k hk).symm.trans hc)
        exact ⟨e, by rw [hheap, if_neg hcb, he]⟩
  · by_cases ha : a = b.data
    · subst ha
      obtain rfl : d' = e := Option.some.inj (hself.symm.trans he)
      obtain ⟨hcount₀, hpos, hlt, -⟩ := h.block _ d hd
      refine ⟨by rw [hcount, hcount₀, hholders], by omega, by omega, z, hz, fun k c hc hca => ?_⟩
      by_cases hk : k = this
      · rw [hk, hthis, Option.some.injEq] at hc
        exact hc ▸ hcov
      · exact (hothers k c hk ((hbuffers k hk).symm.trans hc) hca).1
    · rw [hheap, if_neg ha] at he
      obtain ⟨hcount, hpos, hlt, z, hz, hcov⟩ := h.block a e he
      refine ⟨hcount.trans (hholders a).symm, hpos, hlt, z, hz, fun k c hc hca => ?_⟩
      by_cases hk : k = this
      · rw [hk, hthis, Option.some.injEq] at hc
        exact absurd (by rw [← hca, ← hc, hdata]) ha
      · exact hcov k c ((hbuffers k hk).symm.trans hc) hca
  · refine h.bytes_congr (hbuffers k hk) fun c e hc he => ?_
    by_cases hcb : c.data = b.data
    · obtain rfl : d = e := Option.some.inj (hd.symm.trans (hcb ▸ he))
      exact ⟨d', hcb ▸ hself, (hothers k c hk hc hcb).2⟩
    · exact ⟨e, by rw [hheap, if_neg hcb, he], rfl⟩

/-- So it is where the two are put back in their places. -/
theorem Sound.putBack (h : m.Sound) (hb : m.buffers.lookup this = some b) (hd : m.heap.lookup b.data = some d)
    (b' : Buffer) (d' : Data) (hdata : b'.data = b.data) (hcount : d'.count = d.count) {z : ℕ}
    (hz : d'.dirtyEnd ≤ d'.size + z) (hcov : d'.Covers z b')
    (hothers : ∀ k c, k ≠ this → m.buffers.lookup k = some c → c.data = b.data →
      d'.Covers z c ∧ c.content d'.data = c.content d.data) (r : ℕ) :
    m.Becomes ⟨m.buffers.insert this b', m.heap.insert b.data d', r⟩ this (some (b'.content d'.data)) :=
  h.replace hd hdata hcount hz hcov hothers (AList.lookup_insert _) (fun _ hk => AList.lookup_insert_ne hk)
    (Store.holders_insert_of_ref_eq hb hdata) (Store.lookup_insert_eq_ite _ _ _)

end Memory

end Buffer

end Ns3
